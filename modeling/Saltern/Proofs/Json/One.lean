import Mathlib.Algebra.Group.Nat.Units
import Mathlib.Algebra.Order.Field.Rat
import Mathlib.Data.Nat.Digits.Defs
import Mathlib.Tactic.FieldSimp
import Mathlib.Tactic.Linarith
import Mathlib.Tactic.NormNum
import Saltern.Json.Basic

/-!
# The number one

A number that is written in some other way may still be one: with a fraction or an exponent, or so close to
one that no other number of 53 binary digits is closer.
-/

namespace Saltern.Decimal

/-- A decimal without its sign. -/
def size (d : Decimal) : ℚ := d.digits * 10 ^ d.exponent

/-- Whether a decimal, rounded to 53 binary digits, is one. -/
def RoundsToOne (d : Decimal) : Prop := d.negative = false ∧ 1 - 1 / 2 ^ 54 ≤ d.size ∧ d.size ≤ 1 + 1 / 2 ^ 53

/-- Of the whole numbers only one itself is so close to one. -/
theorem roundsToOne_of_nonneg (n k : Nat) : RoundsToOne ⟨false, n, k⟩ ↔ n * 10 ^ k = 1 := by
  have hsize : size ⟨false, n, k⟩ = ((n * 10 ^ k : Nat) : ℚ) := by simp [size]
  rw [RoundsToOne, hsize, and_iff_right rfl]
  generalize n * 10 ^ k = m
  constructor
  · rintro ⟨hlow, hhigh⟩
    have hpos : (0 : ℚ) < m := by linarith
    have htwo : (m : ℚ) < 2 := by linarith
    norm_cast at hpos htwo
    omega
  · rintro rfl
    norm_num

theorem roundsToOne_of_neg (n k : Nat) :
    RoundsToOne ⟨false, n, Int.negSucc k⟩ ↔
      18014398509481983 * 10 ^ (k + 1) ≤ 18014398509481984 * n ∧
        9007199254740992 * n ≤ 9007199254740993 * 10 ^ (k + 1) := by
  have hscale : (0 : ℚ) < 10 ^ (k + 1) := by positivity
  rw [RoundsToOne, and_iff_right rfl, size, zpow_negSucc, ← div_eq_mul_inv, le_div_iff₀ hscale,
    div_le_iff₀ hscale]
  refine and_congr ?_ ?_
  · rw [← Nat.cast_le (α := ℚ)]
    push_cast
    constructor <;> intro h <;> linarith
  · rw [← Nat.cast_le (α := ℚ)]
    push_cast
    constructor <;> intro h <;> linarith

theorem length_numeral_le_iff {n k : Nat} (hk : 0 < k) : (Text.numeral n).length ≤ k ↔ n < 10 ^ k :=
  Nat.length_toDigits_le_iff (by decide) hk

theorem length_numeral_pos (n : Nat) : 0 < (Text.numeral n).length :=
  List.length_pos_iff.mpr Nat.toDigits_ne_nil

/-- A decimal that rounds to one has one digit before its point, or none. -/
theorem length_numeral_of_near_one {n k : Nat} (hlow : 18014398509481983 * 10 ^ (k + 1) ≤ 18014398509481984 * n)
    (hhigh : 9007199254740992 * n ≤ 9007199254740993 * 10 ^ (k + 1)) :
    k < (Text.numeral n).length ∧ (Text.numeral n).length ≤ k + 2 := by
  have hscale : 0 < 10 ^ k := Nat.pow_pos (by decide)
  constructor
  · by_contra hshort
    have hk : 0 < k := Nat.lt_of_lt_of_le (length_numeral_pos n) (by omega)
    have hn := (length_numeral_le_iff hk).mp (Nat.le_of_not_lt hshort)
    rw [Nat.pow_succ] at hlow
    omega
  · rw [length_numeral_le_iff (by omega), Nat.pow_succ]
    rw [Nat.pow_succ] at hhigh ⊢
    omega

/-- A decimal counts as one where it rounds to one; that those of another size are passed over without being
multiplied out makes no difference. -/
theorem isOne_iff (d : Decimal) : d.isOne = true ↔ d.RoundsToOne := by
  obtain ⟨negative, n, e⟩ := d
  have hlength := length_numeral_pos n
  cases negative with
  | true => simp [isOne, RoundsToOne]
  | false =>
    cases e with
    | ofNat k =>
        have hone : n = 1 → (Text.numeral n).length = 1 := by
          rintro rfl
          rfl
        rw [Int.ofNat_eq_natCast, roundsToOne_of_nonneg, mul_eq_one, Nat.pow_eq_one]
        simp only [isOne, Bool.false_or, Bool.or_eq_true, decide_eq_true_eq, Nat.cast_nonneg, if_true,
          Bool.if_false_left, Bool.decide_or, Bool.not_or, Bool.and_eq_true, Bool.not_eq_true',
          decide_eq_false_iff_not]
        omega
    | negSucc k =>
        rw [roundsToOne_of_neg]
        have hnear := @length_numeral_of_near_one n k
        simp only [isOne, Bool.false_or, Bool.or_eq_true, decide_eq_true_eq, Int.negSucc_not_nonneg, if_false,
          Int.natAbs_negSucc, Nat.succ_eq_add_one, Nat.pow_eq, Bool.if_false_left, Bool.decide_or, Bool.not_or,
          Bool.and_eq_true, Bool.not_eq_true', decide_eq_false_iff_not]
        omega

end Saltern.Decimal
