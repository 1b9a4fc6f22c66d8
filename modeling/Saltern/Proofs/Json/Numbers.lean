import Mathlib.Data.List.Basic
import Saltern.Json.Printer
import Saltern.Json.Reader

/-!
# Numbers as they are written

A number is read back from its digits, its sign and its exponent, if what follows is no part of a
number.
-/

namespace Saltern

/-! ## Numerals -/

namespace Text

theorem isDigit_of_mem_numeral {n : Nat} {c : Char} (h : c ∈ numeral n) : c.isDigit = true :=
  Nat.isDigit_of_mem_toDigits (by decide) (by decide) h

theorem numeral_ne_nil (n : Nat) : numeral n ≠ [] := Nat.toDigits_ne_nil

theorem exists_numeral_eq_cons (n : Nat) : ∃ c r, numeral n = c :: r ∧ c.isDigit = true := by
  obtain ⟨c, r, h⟩ := List.exists_cons_of_ne_nil (numeral_ne_nil n)
  exact ⟨c, r, h, isDigit_of_mem_numeral (h ▸ List.mem_cons_self)⟩

/-- No numeral but that of zero starts with a zero. -/
theorem head?_numeral {n : Nat} (h : 0 < n) : (numeral n).head? ≠ some '0' := by
  have hdigit : ∀ d < 10, 0 < d → Nat.digitChar d ≠ '0' := by decide
  induction n using Nat.strongRecOn with
  | ind n ih =>
    rw [numeral, Nat.toDigits_eq_if (by decide)]
    split
    · next hlt => simpa using hdigit n hlt h
    · have hhead := ih (n / 10) (by omega) (by omega)
      obtain ⟨c, r, hc, -⟩ := exists_numeral_eq_cons (n / 10)
      rw [numeral] at hhead hc
      rw [hc] at hhead ⊢
      exact hhead

end Text

namespace Json

open Text

variable {n : Nat} {r : Text} {d : Decimal} {b : Bool}

theorem digitsValue_numeral (n : Nat) : digitsValue (numeral n) = n := Nat.ofDigitChars_ten_toDigits

/-- Whether a text does not go on with a digit. -/
def EndsDigits (r : Text) : Prop := ∀ c ∈ r.head?, c.isDigit = false

/-- Whether a text does not go on with what could belong to a number. -/
def EndsNumber (r : Text) : Prop := ∀ c ∈ r.head?, c.isDigit = false ∧ c ≠ '.' ∧ c ≠ 'e' ∧ c ≠ 'E'

theorem EndsNumber.endsDigits (h : EndsNumber r) : EndsDigits r := fun c hc ↦ (h c hc).1

theorem readDigits_numeral (n : Nat) (h : EndsDigits r) :
    readDigits (numeral n ++ r) = some (numeral n, r) := by
  have hall : ∀ c ∈ numeral n, c.isDigit = true := fun c ↦ isDigit_of_mem_numeral
  have htake : r.takeWhile Char.isDigit = [] := by
    cases r with
    | nil => rfl
    | cons c r => rw [List.takeWhile_cons_of_neg (by simp [h c rfl])]
  have hdrop : r.dropWhile Char.isDigit = r := by
    cases r with
    | nil => rfl
    | cons c r => rw [List.dropWhile_cons_of_neg (by simp [h c rfl])]
  rw [readDigits, List.takeWhile_append_of_pos hall, List.dropWhile_append_of_pos hall, htake, hdrop,
    List.append_nil]
  simp [numeral_ne_nil]

theorem readFraction_of_ne (h : r.head? ≠ some '.') : readFraction r = some ([], r) := by
  rw [readFraction]
  rintro s rfl
  exact h rfl

theorem readExponent_of_ne (he : r.head? ≠ some 'e') (hE : r.head? ≠ some 'E') :
    readExponent r = some (0, r) := by
  rw [readExponent]
  · rintro s rfl
    exact he rfl
  · rintro s rfl
    exact hE rfl

/-- An exponent as it is written behind the digits. -/
def exponentText (e : Int) : Text :=
  if e = 0 then [] else 'e' :: (if e < 0 then ['-'] else []) ++ numeral e.natAbs

theorem readExponentDigits_numeral (n : Nat) (h : EndsDigits r) :
    readExponentDigits (numeral n ++ r) = some ((n : Int), r) := by
  have hread := readDigits_numeral n h
  obtain ⟨c, s, hc, hdigit⟩ := exists_numeral_eq_cons n
  have hvalue := digitsValue_numeral n
  rw [hc] at hread hvalue ⊢
  rw [List.cons_append] at hread ⊢
  rw [readExponentDigits, hread]
  · change some ((digitsValue (c :: s) : Int), r) = _
    rw [hvalue]
  · rintro t ⟨⟩
    cases hdigit
  · rintro t ⟨⟩
    cases hdigit

theorem readExponent_exponentText (e : Int) (h : EndsNumber r) :
    readExponent (exponentText e ++ r) = some (e, r) := by
  unfold exponentText
  split
  · next hzero =>
    subst hzero
    exact readExponent_of_ne (fun hc ↦ (h _ hc).2.2.1 rfl) fun hc ↦ (h _ hc).2.2.2 rfl
  · split
    · next hneg =>
      change readExponentDigits ('-' :: (numeral e.natAbs ++ r)) = _
      rw [readExponentDigits, readDigits_numeral _ h.endsDigits]
      change some (-(digitsValue (numeral e.natAbs) : Int), r) = _
      rw [digitsValue_numeral, show -(e.natAbs : Int) = e by omega]
    · next hneg =>
      change readExponentDigits (numeral e.natAbs ++ r) = _
      rw [readExponentDigits_numeral _ h.endsDigits, show (e.natAbs : Int) = e by omega]

theorem head?_exponentText_append {c : Char} {e : Int} (hc : c ≠ 'e') (hr : r.head? ≠ some c) :
    (exponentText e ++ r).head? ≠ some c := by
  unfold exponentText
  split
  · exact hr
  · simpa using hc.symm

theorem readUnsigned_numeral (n : Nat) (e : Int) (h : EndsNumber r) :
    readUnsigned b (numeral n ++ (exponentText e ++ r)) = some (⟨b, n, e⟩, r) := by
  have hdigits : EndsDigits (exponentText e ++ r) := by
    intro c hc
    by_contra hdigit
    have hne : c ≠ 'e' := by
      rintro rfl
      exact hdigit rfl
    exact head?_exponentText_append hne (fun hr ↦ hdigit (h c hr).1) hc
  have hpoint : (exponentText e ++ r).head? ≠ some '.' :=
    head?_exponentText_append (by decide) fun hr ↦ (h _ hr).2.1 rfl
  have hzeros : ¬ (decide ((numeral n).head? = some '0') && decide (1 < (numeral n).length)) = true := by
    rw [Bool.and_eq_true, decide_eq_true_eq, decide_eq_true_eq]
    rintro ⟨hzero, hlong⟩
    by_cases hn : 0 < n
    · exact head?_numeral hn hzero
    · obtain rfl : n = 0 := by omega
      exact absurd hlong (by decide)
  rw [readUnsigned, readDigits_numeral n hdigits, Option.bind_eq_bind, Option.bind_some]
  dsimp only
  rw [if_neg hzeros, readFraction_of_ne hpoint, Option.bind_some]
  dsimp only
  rw [readExponent_exponentText e h, Option.bind_eq_bind, Option.bind_some, List.append_nil,
    digitsValue_numeral, List.length_nil]
  change some ((⟨b, n, e - 0⟩ : Decimal), r) = _
  rw [Int.sub_zero]

/-- A number is read back from its text. -/
theorem readDecimal_printDecimal (d : Decimal) (h : EndsNumber r) :
    readDecimal (printDecimal d ++ r) = some (d, r) := by
  obtain ⟨negative, digits, exponent⟩ := d
  cases negative with
  | true =>
      have htext : printDecimal ⟨true, digits, exponent⟩ ++ r =
          '-' :: (numeral digits ++ (exponentText exponent ++ r)) := by
        simp [printDecimal, exponentText]
      rw [htext, readDecimal, readUnsigned_numeral digits exponent h]
  | false =>
      have htext : printDecimal ⟨false, digits, exponent⟩ ++ r =
          numeral digits ++ (exponentText exponent ++ r) := by
        simp [printDecimal, exponentText]
      have hread := readUnsigned_numeral (b := false) digits exponent h
      obtain ⟨c, s, hc, hdigit⟩ := exists_numeral_eq_cons digits
      rw [htext]
      rw [hc, List.cons_append] at hread ⊢
      rw [readDecimal, hread]
      rintro t ⟨⟩
      cases hdigit

end Json

end Saltern
