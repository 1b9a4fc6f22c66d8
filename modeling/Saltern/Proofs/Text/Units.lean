import Mathlib.Data.List.Basic
import Saltern.Text.Units

/-!
# Units and their order

A string is put together again from its pieces, and strings stand in the lexicographic order of
their units.
-/

namespace Saltern.Units

variable {a b : Units} {u v : UInt16}

/-! ## Pieces -/

/-- The units that a piece stands for. -/
def Piece.units : Piece → Units
  | .char c => Text.charUnits c
  | .half u => [u]

theorem toNat_ofNat {n : Nat} (h : n.isValidChar) : (Char.ofNat n).toNat = n := by
  rw [Char.ofNat, dif_pos h]
  rfl

theorem units_lone (u : UInt16) : (lone u).units = [u] := by
  unfold lone
  split
  · rfl
  · next h =>
    rw [Bool.or_eq_true, isHigh_eq_true, isLow_eq_true] at h
    have hlt : u.toNat < 0x10000 := u.toNat_lt
    have hvalid : u.toNat.isValidChar := by
      simp only [Nat.isValidChar]
      omega
    rw [Piece.units, Text.charUnits, toNat_ofNat hvalid, if_pos hlt]
    exact congrArg ([·]) (UInt16.ofNat_toNat (x := u))

/-- Two halves are the units of the character that they make. -/
theorem charUnits_joined (hu : isHigh u = true) (hv : isLow v = true) :
    Text.charUnits (joined u v) = [u, v] := by
  rw [isHigh_eq_true] at hu
  rw [isLow_eq_true] at hv
  have hvalid : (0x10000 + (u.toNat - 0xD800) * 0x400 + (v.toNat - 0xDC00)).isValidChar := by
    simp only [Nat.isValidChar]
    omega
  have hhigh : 0xD800 + (0x10000 + (u.toNat - 0xD800) * 0x400 + (v.toNat - 0xDC00) - 0x10000) / 0x400 =
      u.toNat := by omega
  have hlow : 0xDC00 + (0x10000 + (u.toNat - 0xD800) * 0x400 + (v.toNat - 0xDC00) - 0x10000) % 0x400 =
      v.toNat := by omega
  rw [Text.charUnits, joined, toNat_ofNat hvalid, if_neg (by omega), hhigh, hlow]
  exact congrArg₂ (fun x y ↦ [x, y]) (UInt16.ofNat_toNat (x := u)) (UInt16.ofNat_toNat (x := v))

/-- The pieces of a string are all of it. -/
theorem flatMap_units_pieces (s : Units) : s.pieces.flatMap Piece.units = s := by
  fun_induction pieces s with
  | case1 => rfl
  | case2 u => rw [List.flatMap_singleton, units_lone]
  | case3 u v r h ih =>
      rw [Bool.and_eq_true] at h
      rw [List.flatMap_cons, ih, Piece.units, charUnits_joined h.1 h.2]
      rfl
  | case4 u v r _ ih => rw [List.flatMap_cons, ih, units_lone, List.singleton_append]

theorem text_ne_nil (h : a ≠ []) : a.text ≠ [] := by
  intro ht
  apply h
  rw [← flatMap_units_pieces a, List.map_eq_nil_iff.mp ht]
  rfl

theorem units_ne_nil {t : Text} (h : t ≠ []) : t.units ≠ [] := by
  intro hu
  apply h
  rw [← text_units t, hu]
  rfl

/-! ## Order -/

theorem precede_iff : precede a b = true ↔ a ≤ b := by
  fun_induction precede a b with
  | case1 b => simp
  | case2 a as => simp
  | case3 a as bs ih => rw [ih, List.cons_le_cons_iff]; simp
  | case4 a as b bs hne =>
      rw [List.cons_le_cons_iff, decide_eq_true_eq, UInt16.lt_iff_toNat_lt]
      simp [hne]

end Saltern.Units
