import Saltern.Text.Basic

/-!
# Sixteen-bit units

A string of JSON is a list of 16-bit units. A character beyond the basic plane counts as its two
surrogate units, a high half and a low half; units may also hold a half by itself, for which there is
no text. Keys are sorted by their units, so a character beyond the basic plane comes before the
characters from U+E000 on.
-/

namespace Saltern

/-- A string as its 16-bit units. -/
abbrev Units := List UInt16

namespace Text

/-- The 16-bit units of one character. -/
def charUnits (c : Char) : Units :=
  if c.toNat < 0x10000 then [c.toNat.toUInt16]
  else
    [(0xD800 + (c.toNat - 0x10000) / 0x400).toUInt16, (0xDC00 + (c.toNat - 0x10000) % 0x400).toUInt16]

/-- The 16-bit units of a text. -/
def units (t : Text) : Units := t.flatMap charUnits

@[simp] theorem units_nil : units [] = [] := rfl

@[simp] theorem units_cons (c : Char) (t : Text) : units (c :: t) = charUnits c ++ units t := rfl

theorem units_append (a b : Text) : units (a ++ b) = units a ++ units b := List.flatMap_append

end Text

namespace Units

def isHigh (u : UInt16) : Bool := 0xD800 ≤ u.toNat && u.toNat < 0xDC00

def isLow (u : UInt16) : Bool := 0xDC00 ≤ u.toNat && u.toNat < 0xE000

/-- What stands at one place of a string: a character, or one half of a pair by itself. -/
inductive Piece
  | char (c : Char)
  | half (u : UInt16)
  deriving DecidableEq

/-- What a unit by itself stands for. -/
def lone (u : UInt16) : Piece := if isHigh u || isLow u then .half u else .char (Char.ofNat u.toNat)

/-- The character that two halves make. -/
def joined (high low : UInt16) : Char :=
  Char.ofNat (0x10000 + (high.toNat - 0xD800) * 0x400 + (low.toNat - 0xDC00))

/-- The characters of a string, and the halves that have no partner. -/
def pieces : Units → List Piece
  | [] => []
  | [u] => [lone u]
  | u :: v :: r =>
    if isHigh u && isLow v then .char (joined u v) :: pieces r else lone u :: pieces (v :: r)

/-- A piece as it is shown: a half without a partner has no character of its own. -/
def Piece.shown : Piece → Char
  | .char c => c
  | .half _ => '\ufffd'

/-- The text of a string. -/
def text (u : Units) : Text := (pieces u).map Piece.shown

/-- Whether one string comes before another or equals it: the first difference decides, and what
ends first comes first. -/
def precede : Units → Units → Bool
  | [], _ => true
  | _ :: _, [] => false
  | a :: as, b :: bs => if a = b then precede as bs else a.toNat < b.toNat

theorem isHigh_eq_true {u : UInt16} : isHigh u = true ↔ 0xD800 ≤ u.toNat ∧ u.toNat < 0xDC00 := by
  simp [isHigh]

theorem isLow_eq_true {u : UInt16} : isLow u = true ↔ 0xDC00 ≤ u.toNat ∧ u.toNat < 0xE000 := by
  simp [isLow]

theorem pieces_cons {u : UInt16} (h : isHigh u = false) (r : Units) :
    pieces (u :: r) = lone u :: pieces r := by
  cases r with
  | nil => rfl
  | cons v r => rw [pieces, h, Bool.false_and, if_neg Bool.false_ne_true]

theorem pieces_pair {u v : UInt16} (hu : isHigh u = true) (hv : isLow v = true) (r : Units) :
    pieces (u :: v :: r) = .char (joined u v) :: pieces r := by
  rw [pieces, hu, hv, Bool.true_and, if_pos rfl]

theorem pieces_charUnits (c : Char) (r : Units) :
    pieces (Text.charUnits c ++ r) = .char c :: pieces r := by
  have hv : ¬ (0xD800 ≤ c.toNat ∧ c.toNat < 0xE000) ∧ c.toNat < 0x110000 := by
    have := c.valid
    simp only [UInt32.isValidChar, Nat.isValidChar] at this
    change ¬ (0xD800 ≤ c.val.toNat ∧ c.val.toNat < 0xE000) ∧ c.val.toNat < 0x110000
    omega
  unfold Text.charUnits
  split
  · next h =>
    have hu : c.toNat.toUInt16.toNat = c.toNat := UInt16.toNat_ofNat_of_lt' h
    have hh : isHigh c.toNat.toUInt16 = false := by
      rw [← Bool.not_eq_true, isHigh_eq_true, hu]
      omega
    have hl : isLow c.toNat.toUInt16 = false := by
      rw [← Bool.not_eq_true, isLow_eq_true, hu]
      omega
    rw [List.singleton_append, pieces_cons hh, lone, hh, hl, hu, Char.ofNat_toNat]
    rfl
  · next h =>
    have hh : (0xD800 + (c.toNat - 0x10000) / 0x400).toUInt16.toNat =
        0xD800 + (c.toNat - 0x10000) / 0x400 := UInt16.toNat_ofNat_of_lt' (by simp only [UInt16.size]; omega)
    have hl : (0xDC00 + (c.toNat - 0x10000) % 0x400).toUInt16.toNat =
        0xDC00 + (c.toNat - 0x10000) % 0x400 := UInt16.toNat_ofNat_of_lt' (by simp only [UInt16.size]; omega)
    have hc : 0x10000 + (0xD800 + (c.toNat - 0x10000) / 0x400 - 0xD800) * 0x400 +
        (0xDC00 + (c.toNat - 0x10000) % 0x400 - 0xDC00) = c.toNat := by omega
    rw [List.cons_append, List.singleton_append,
      pieces_pair (isHigh_eq_true.mpr (by omega)) (isLow_eq_true.mpr (by omega)), joined, hh, hl, hc,
      Char.ofNat_toNat]

/-- The pieces of a text are its characters. -/
theorem pieces_units (t : Text) : pieces t.units = t.map .char := by
  induction t with
  | nil => rfl
  | cons c t ih => rw [Text.units_cons, pieces_charUnits, ih, List.map_cons]

@[simp] theorem text_units (t : Text) : text t.units = t := by
  simp [text, pieces_units, Function.comp_def, Piece.shown]

end Units

namespace Text

/-- Whether a text comes before another or equals it, unit by unit. -/
def precedes (a b : Text) : Bool := Units.precede a.units b.units

theorem units_injective {a b : Text} (h : a.units = b.units) : a = b := by
  rw [← Units.text_units a, h, Units.text_units]

end Text

end Saltern
