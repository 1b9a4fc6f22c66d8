import Mathlib
import Saltern.Proofs.Json.Strings

/-!
# Literals in templates

A string literal of a template is read in two steps. It ends at its first quote of its own kind that no
backslash escapes; then the escapes in it are replaced. Digits and names stand for characters, a line feed
for nothing, and a backslash before a character that makes no escape stays. Characters beyond ASCII are
escapes by digits when the others are replaced, so that a backslash in front of one escapes the backslash of
these digits. A literal of JSON, read so, denotes the string that it was made from.
-/

namespace Saltern.Jinja

/-! ## Reading a literal -/

/-- The body of a literal up to its first quote that is not escaped, and what stands behind that quote. -/
def cut (quote : Char) : Text → Option (Text × Text)
  | [] => none
  | '\\' :: c :: r => (cut quote r).map fun x ↦ ('\\' :: c :: x.1, x.2)
  | c :: r => if c = quote then some ([], r) else (cut quote r).map fun x ↦ (c :: x.1, x.2)

/-- The characters that stand for one character behind a backslash. -/
def single : List (Char × Char) :=
  [('\\', '\\'), ('\'', '\''), ('"', '"'), ('a', '\x07'), ('b', '\x08'), ('t', '\t'), ('n', '\n'),
    ('v', '\x0b'), ('f', '\x0c'), ('r', '\r')]

def isOctal (c : Char) : Bool := '0' ≤ c && c ≤ '7'

/-- Whether a character makes an escape with a backslash in front of it. -/
def opens (c : Char) : Bool :=
  (single.lookup c).isSome || c = '\n' || isOctal c || c = 'x' || c = 'u' || c = 'U' || c = 'N' || 128 ≤ c.toNat

/-- The character with a number, if there is one. -/
def charOf? (n : Nat) : Option Char := if n.isValidChar then some (Char.ofNat n) else none

/-- What up to three octal digits stand for. -/
def byOctal? (t : Text) : Option (Text × Nat) :=
  let digits := (t.take 3).takeWhile isOctal
  (charOf? (digits.foldl (fun n c ↦ 8 * n + (c.toNat - '0'.toNat)) 0)).map fun c ↦ ([c], digits.length)

/-- What some hexadecimal digits behind a letter stand for. -/
def byDigits? (count : Nat) (t : Text) : Option (Text × Nat) :=
  let digits := t.take count
  if digits.length = count ∧ ∀ c ∈ digits, (Json.hexValue? c).isSome then
    (charOf? (digits.foldl (fun n c ↦ 16 * n + (Json.hexValue? c).getD 0) 0)).map fun c ↦ ([c], count + 1)
  else none

/-- Whether a character may stand in the name of one. -/
def isNameChar (c : Char) : Bool := c.isAlphanum || c = ' ' || c = '-'

/-- What a name in braces behind a letter stands for, by a register of names. -/
def byName? (named : Text → Option Char) : Text → Option (Text × Nat)
  | '\x7b' :: t =>
    let name := t.takeWhile isNameChar
    if (t.drop name.length).head? = some '\x7d' then
      (named name).map fun c ↦ ([c], name.length + 3)
    else none
  | _ => none

/-- The digits that stand for a character beyond ASCII, behind their letter. -/
def spelled (c : Char) : Text :=
  let digits (count : Nat) : Text := (List.range count).reverse.map fun i ↦ Json.hexDigit (c.toNat / 16 ^ i % 16)
  if c.toNat < 0x100 then 'x' :: digits 2
  else if c.toNat < 0x10000 then 'u' :: digits 4
  else 'U' :: digits 8

variable (named : Text → Option Char)

/-- What an escape denotes, told from the text behind its backslash, and how much of that text belongs to
it. -/
def meaning? : Text → Option (Text × Nat)
  | [] => none
  | c :: r =>
    match single.lookup c with
    | some x => some ([x], 1)
    | none =>
      if c = '\n' then some ([], 1)
      else if isOctal c then byOctal? (c :: r)
      else if c = 'x' then byDigits? 2 r
      else if c = 'u' then byDigits? 4 r
      else if c = 'U' then byDigits? 8 r
      else if c = 'N' then byName? named r
      else if c.toNat < 128 then some (['\\', c], 1)
      else some ('\\' :: spelled c, 1)

/-- A text with its escapes replaced; some characters at its start may belong to an escape already. -/
def replaced? : (skipped : Nat) → Text → Option Text
  | _, [] => some []
  | n + 1, _ :: r => replaced? n r
  | 0, c :: r =>
    if c = '\\' then (meaning? named r).bind fun m ↦ (replaced? m.2 r).map (m.1 ++ ·)
    else (replaced? 0 r).map (c :: ·)

/-- What the literal denotes that a text starts with, and what stands behind it. -/
def literal? : Text → Option (Text × Text)
  | [] => none
  | q :: r =>
    if q = '\'' ∨ q = '"' then (cut q r).bind fun x ↦ (replaced? named 0 x.1).map (·, x.2) else none

/-- Whether the characters of a text stand for themselves in a literal. -/
def Bare (q : Char) (u : Text) : Prop := ∀ x ∈ u, x ≠ '\\' ∧ x ≠ q

variable {named} {q c : Char} {t u r k b d s p : Text} {n : Nat}

/-! ## Character by character -/

theorem cut_plain (hslash : c ≠ '\\') (hquote : c ≠ q) (r : Text) :
    cut q (c :: r) = (cut q r).map fun x ↦ (c :: x.1, x.2) := by
  rw [cut, if_neg hquote]
  rintro d r' rfl
  exact absurd rfl hslash

theorem cut_escape (q c : Char) (r : Text) :
    cut q ('\\' :: c :: r) = (cut q r).map fun x ↦ ('\\' :: c :: x.1, x.2) := rfl

theorem cut_quote (h : q ≠ '\\') (r : Text) : cut q (q :: r) = some ([], r) := by
  rw [cut, if_pos rfl]
  rintro d r' rfl
  exact absurd rfl h

theorem cut_bare (h : Bare q u) (r : Text) : cut q (u ++ r) = (cut q r).map fun x ↦ (u ++ x.1, x.2) := by
  induction u with
  | nil => exact Option.map_id'.symm
  | cons c u ih =>
      obtain ⟨⟨hslash, hquote⟩, hu⟩ := List.forall_mem_cons.mp h
      rw [List.cons_append, cut_plain hslash hquote, ih hu, Option.map_map]
      rfl

/-- What is cut is the text up to the quote. -/
theorem cut_spec (h : cut q t = some (b, r)) : t = b ++ q :: r := by
  fun_induction cut q t generalizing b with
  | case1 => cases h
  | case2 c t ih =>
      obtain ⟨x, hx, heq⟩ := Option.map_eq_some_iff.mp h
      obtain ⟨rfl, rfl⟩ := Prod.mk.inj heq
      rw [ih hx]
      rfl
  | case3 t =>
      cases h
      rfl
  | case4 c t hslash hquote ih =>
      obtain ⟨x, hx, heq⟩ := Option.map_eq_some_iff.mp h
      obtain ⟨rfl, rfl⟩ := Prod.mk.inj heq
      rw [ih hx]
      rfl

theorem replaced?_plain (h : c ≠ '\\') (r : Text) :
    replaced? named 0 (c :: r) = (replaced? named 0 r).map (c :: ·) := by
  rw [replaced?, if_neg h]

theorem replaced?_escape (r : Text) :
    replaced? named 0 ('\\' :: r) = (meaning? named r).bind fun m ↦ (replaced? named m.2 r).map (m.1 ++ ·) := by
  rw [replaced?, if_pos rfl]

theorem replaced?_skipped (u r : Text) : replaced? named u.length (u ++ r) = replaced? named 0 r := by
  induction u with
  | nil => rfl
  | cons c u ih => exact ih

/-! ## Pieces of a literal -/

/-- Whether a piece of a literal is read by itself, and denotes a string. -/
structure Denotes (named : Text → Option Char) (q : Char) (u s : Text) : Prop where
  cut_append : ∀ r, cut q (u ++ r) = (cut q r).map fun x ↦ (u ++ x.1, x.2)
  replaced_append : ∀ r, replaced? named 0 (u ++ r) = (replaced? named 0 r).map (s ++ ·)

namespace Denotes

theorem nil : Denotes named q [] [] := ⟨fun _ ↦ Option.map_id'.symm, fun _ ↦ Option.map_id'.symm⟩

theorem append {u' s' : Text} (h : Denotes named q u s) (h' : Denotes named q u' s') :
    Denotes named q (u ++ u') (s ++ s') := by
  constructor
  · intro r
    rw [List.append_assoc, h.cut_append, h'.cut_append, Option.map_map]
    congr 1
    funext x
    exact congrArg (·, x.2) (List.append_assoc u u' x.1).symm
  · intro r
    rw [List.append_assoc, h.replaced_append, h'.replaced_append, Option.map_map]
    congr 1
    funext x
    exact (List.append_assoc s s' x).symm

theorem plain (hslash : c ≠ '\\') (hquote : c ≠ q) : Denotes named q [c] [c] :=
  ⟨cut_plain hslash hquote, replaced?_plain hslash⟩

theorem escape (hu : Bare q u) (h : ∀ r, meaning? named (c :: u ++ r) = some (s, u.length + 1)) :
    Denotes named q ('\\' :: c :: u) s := by
  constructor
  · intro r
    show cut q ('\\' :: c :: (u ++ r)) = _
    rw [cut_escape, cut_bare hu, Option.map_map]
    rfl
  · intro r
    show replaced? named 0 ('\\' :: (c :: u ++ r)) = _
    rw [replaced?_escape, h, Option.bind_some]
    exact congrArg (Option.map (s ++ ·)) (replaced?_skipped (c :: u) r)

end Denotes

theorem literal?_of_denotes (hq : q = '\'' ∨ q = '"') (h : Denotes named q u s) (r : Text) :
    literal? named (q :: u ++ q :: r) = some (s, r) := by
  have hslash : q ≠ '\\' := by rcases hq with rfl | rfl <;> decide
  have hbody := h.replaced_append []
  rw [List.append_nil] at hbody
  rw [List.cons_append, literal?, if_pos hq, h.cut_append, cut_quote hslash]
  simp only [Option.map_some, Option.bind_some, List.append_nil, hbody]
  rw [replaced?]
  simp

/-! ## Literals of JSON -/

theorem bare_nil (q : Char) : Bare q [] := nofun

theorem charOf?_toNat (c : Char) : charOf? c.toNat = some c := by
  rw [charOf?, if_pos (show c.toNat.isValidChar from c.valid), Char.ofNat_toNat]

theorem byDigits?_append (h : ∀ x ∈ u, (Json.hexValue? x).isSome)
    (hc : charOf? (u.foldl (fun n c ↦ 16 * n + (Json.hexValue? c).getD 0) 0) = some c) (r : Text) :
    byDigits? u.length (u ++ r) = some ([c], u.length + 1) := by
  rw [byDigits?, List.take_left, if_pos ⟨rfl, h⟩, hc]
  rfl

theorem bare_of_digits (hq : Json.hexValue? q = none) (h : ∀ x ∈ u, (Json.hexValue? x).isSome) : Bare q u := by
  intro x hx
  have hvalue := h x hx
  constructor
  · rintro rfl
    cases hvalue
  · rintro rfl
    rw [hq] at hvalue
    cases hvalue

theorem meaning?_unicode (r : Text) : meaning? named ('u' :: r) = byDigits? 4 r := rfl

theorem denotes_digits (hq : Json.hexValue? q = none) (hu : ∀ x ∈ u, (Json.hexValue? x).isSome)
    (hlength : u.length = 4)
    (hc : charOf? (u.foldl (fun n c ↦ 16 * n + (Json.hexValue? c).getD 0) 0) = some c) :
    Denotes named q ('\\' :: 'u' :: u) [c] := by
  apply Denotes.escape (bare_of_digits hq hu)
  intro r
  rw [List.cons_append, meaning?_unicode, ← hlength]
  exact byDigits?_append hu hc r

theorem denotes_escapeChar (x : Char) : Denotes named '"' (Json.escapeChar x) [x] := by
  unfold Json.escapeChar
  -- The seven characters with an escape of their own.
  iterate 7
    split
    · next h =>
      subst h
      exact .escape (bare_nil _) fun _ ↦ rfl
  split
  · next h =>
    have hzero : Json.hexValue? '0' = some 0 := rfl
    have hhigh := Json.hexValue?_hexDigit (x.toNat / 16) (by omega)
    have hlow := Json.hexValue?_hexDigit (x.toNat % 16) (by omega)
    have hvalue : 16 * (16 * (16 * (16 * 0 + 0) + 0) + x.toNat / 16) + x.toNat % 16 = x.toNat := by omega
    refine denotes_digits rfl ?_ rfl ?_
    · simp only [List.forall_mem_cons, hzero, hhigh, hlow, Option.isSome_some, List.not_mem_nil,
        false_implies, implies_true, and_self]
    · simp only [List.foldl_cons, List.foldl_nil, hzero, hhigh, hlow, Option.getD_some, hvalue]
      exact charOf?_toNat x
  · next hquote hslash _ _ _ _ _ _ => exact .plain hslash hquote

/-- A literal of JSON denotes the string that it was made from. -/
theorem literal?_quote (named : Text → Option Char) (k r : Text) :
    literal? named (Json.quote k.units ++ r) = some (k, r) := by
  have hbody : Denotes named '"' (k.flatMap Json.escapeChar) k := by
    induction k with
    | nil => exact .nil
    | cons x k ih => exact (denotes_escapeChar x).append ih
  rw [Json.quote_units, List.append_assoc]
  exact literal?_of_denotes (.inr rfl) hbody r

end Saltern.Jinja
