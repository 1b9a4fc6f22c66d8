import Saltern.Json.Printer
import Saltern.Json.Reader
import Saltern.Proofs.Text.OneLine
import Saltern.Proofs.Text.Units

/-!
# Strings as literals

A string is read back from its literal, unit by unit, and its literal is a single line.
-/

namespace Saltern.Json

open Saltern.Units (Piece)

variable {a b c d : Nat} {r : Text} {s : Units}

/-! ## Digits -/

theorem hexValue?_hexDigit : ∀ n < 16, hexValue? (hexDigit n) = some n := by decide

theorem hexValue4?_hexDigit (ha : a < 16) (hb : b < 16) (hc : c < 16) (hd : d < 16) :
    hexValue4? (hexDigit a) (hexDigit b) (hexDigit c) (hexDigit d) =
      some (((a * 16 + b) * 16 + c) * 16 + d) := by
  simp [hexValue4?, hexValue?_hexDigit _ ha, hexValue?_hexDigit _ hb, hexValue?_hexDigit _ hc,
    hexValue?_hexDigit _ hd]

/-! ## Pieces -/

/-- What is read behind a piece that is read by itself. -/
def behind (us : Units) (o : Option (Units × Text)) : Option (Units × Text) :=
  o.map fun p ↦ (us ++ p.1, p.2)

theorem readString_escape {e x : Char} (he : e ≠ 'u') (hx : unescaped? e = some x) (r : Text) :
    readString ('\\' :: e :: r) = behind (Text.charUnits x) (readString r) := by
  rw [readString, hx]
  · cases readString r <;> rfl
  · rintro a b c d r' rfl
    exact absurd rfl he

theorem readString_digits {n : Nat} {w x y z : Char} (h : hexValue4? w x y z = some n) (r : Text) :
    readString ('\\' :: 'u' :: w :: x :: y :: z :: r) = behind [n.toUInt16] (readString r) := by
  rw [readString, h]
  cases readString r <;> rfl

theorem readString_plain {x : Char} (hquote : x ≠ '"') (hslash : x ≠ '\\') (hcontrol : ¬ x.toNat < 0x20)
    (r : Text) : readString (x :: r) = behind (Text.charUnits x) (readString r) := by
  rw [readString, if_neg hcontrol]
  · cases readString r <;> rfl
  · exact hquote
  · rintro a b c d r' rfl
    exact absurd rfl hslash
  · rintro e r' rfl
    exact absurd rfl hslash

theorem readString_escapeChar (x : Char) (r : Text) :
    readString (escapeChar x ++ r) = behind (Text.charUnits x) (readString r) := by
  unfold escapeChar
  -- The seven characters with an escape of their own.
  iterate 7
    split
    · next h =>
      subst h
      exact readString_escape (by decide) rfl r
  split
  · next h =>
    have hzero : hexDigit 0 = '0' := rfl
    have hvalue := hexValue4?_hexDigit (a := 0) (b := 0) (by decide) (by decide)
      (show x.toNat / 16 < 16 by omega) (show x.toNat % 16 < 16 by omega)
    rw [show ((0 * 16 + 0) * 16 + x.toNat / 16) * 16 + x.toNat % 16 = x.toNat by omega, hzero] at hvalue
    rw [Text.charUnits, if_pos (by omega)]
    exact readString_digits hvalue r
  · next hquote hslash _ _ _ _ _ hcontrol => exact readString_plain hquote hslash hcontrol r

theorem readString_escapeUnit (u : UInt16) (r : Text) :
    readString (escapeUnit u ++ r) = behind [u] (readString r) := by
  have hlt : u.toNat < 0x10000 := u.toNat_lt
  have hvalue := hexValue4?_hexDigit (show u.toNat / 0x1000 < 16 by omega)
    (show u.toNat / 0x100 % 16 < 16 by omega) (show u.toNat / 16 % 16 < 16 by omega)
    (show u.toNat % 16 < 16 by omega)
  rw [show ((u.toNat / 0x1000 * 16 + u.toNat / 0x100 % 16) * 16 + u.toNat / 16 % 16) * 16 + u.toNat % 16 =
    u.toNat by omega] at hvalue
  have hread := readString_digits hvalue r
  rw [show u.toNat.toUInt16 = u from UInt16.ofNat_toNat] at hread
  exact hread

theorem readString_escapePiece (p : Piece) (r : Text) :
    readString (escapePiece p ++ r) = behind p.units (readString r) := by
  cases p with
  | char x => exact readString_escapeChar x r
  | half u => exact readString_escapeUnit u r

/-! ## Literals -/

/-- The body of a literal is read up to its closing quote. -/
theorem readString_pieces (ps : List Piece) (r : Text) :
    readString (ps.flatMap escapePiece ++ '"' :: r) = some (ps.flatMap Piece.units, r) := by
  induction ps with
  | nil => rw [List.flatMap_nil, List.nil_append, readString]; rfl
  | cons p ps ih =>
      rw [List.flatMap_cons, List.append_assoc, readString_escapePiece, ih]
      rfl

/-- A string is read back from its literal. -/
theorem readString_quote (s : Units) (r : Text) :
    ∃ body, quote s ++ r = '"' :: body ∧ readString body = some (s, r) := by
  refine ⟨s.pieces.flatMap escapePiece ++ '"' :: r, by simp [quote], ?_⟩
  rw [readString_pieces, Units.flatMap_units_pieces]

theorem hexDigit_ne_newline : ∀ n < 16, hexDigit n ≠ '\n' := by decide

theorem isLine_escapeChar (x : Char) : Text.IsLine (escapeChar x) := by
  unfold escapeChar
  iterate 7
    split
    · exact .of_all rfl
  split
  · have hhigh := hexDigit_ne_newline (x.toNat / 16) (by omega)
    have hlow := hexDigit_ne_newline (x.toNat % 16) (by omega)
    simp [hhigh, hlow]
  · next hfeed _ _ _ => simpa using hfeed

theorem isLine_escapePiece (p : Piece) : Text.IsLine (escapePiece p) := by
  cases p with
  | char x => exact isLine_escapeChar x
  | half u =>
      have hlt : u.toNat < 0x10000 := u.toNat_lt
      have h₁ := hexDigit_ne_newline (u.toNat / 0x1000) (by omega)
      have h₂ := hexDigit_ne_newline (u.toNat / 0x100 % 16) (by omega)
      have h₃ := hexDigit_ne_newline (u.toNat / 16 % 16) (by omega)
      have h₄ := hexDigit_ne_newline (u.toNat % 16) (by omega)
      simp [escapePiece, escapeUnit, h₁, h₂, h₃, h₄]

/-- A literal holds no line feed. -/
theorem isLine_quote (s : Units) : Text.IsLine (quote s) := by
  have hbody : Text.IsLine (s.pieces.flatMap escapePiece) := by
    intro hn
    obtain ⟨p, -, hp⟩ := List.mem_flatMap.mp hn
    exact isLine_escapePiece p hp
  simp [quote, hbody]

end Saltern.Json
