import Mathlib.Data.List.Forall2
import Mathlib.Data.List.Nodup
import Mathlib.Data.List.Perm.Subperm
import Saltern.Proofs.Table
import Saltern.Salt.StateId

/-!
# Handing out state ids

An id handed out is the wanted one or the wanted one with a number from two on, and it is new: no two
ids of a manifest are the same.
-/

namespace Saltern

theorem Text.numeral_injective : Function.Injective Text.numeral := by
  intro m n h
  have := congrArg (Nat.ofDigitChars 10 · 0) h
  simpa [Text.numeral, Nat.ofDigitChars_ten_toDigits] using this

namespace StateIds

variable {taken : List Text} {id w : Text} {tries n : Nat} {ids : StateIds}

theorem numbered_injective (id : Text) : Function.Injective (numbered id) := by
  intro m n h
  exact Text.numeral_injective (List.cons.inj (List.append_cancel_left h)).2

/-! ## The least free number -/

theorem le_freeFrom (taken : List Text) (id : Text) (tries n : Nat) :
    n ≤ freeFrom taken id tries n := by
  induction tries generalizing n with
  | zero => exact Nat.le_refl n
  | succ tries ih =>
      rw [freeFrom]
      split
      · exact Nat.le_trans (Nat.le_succ n) (ih (n + 1))
      · exact Nat.le_refl n

/-- All numbers that were passed over are taken. -/
theorem mem_of_lt_freeFrom {i : Nat} (hi : n ≤ i) (h : i < freeFrom taken id tries n) :
    numbered id i ∈ taken := by
  induction tries generalizing n with
  | zero => exact absurd h (Nat.not_lt.mpr hi)
  | succ tries ih =>
      rw [freeFrom] at h
      split at h
      · next htaken =>
        rcases Nat.eq_or_lt_of_le hi with rfl | hi
        · simpa using htaken
        · exact ih hi h
      · exact absurd h (Nat.not_lt.mpr hi)

/-- A number is taken only where all tries were. -/
theorem freeFrom_of_mem (h : numbered id (freeFrom taken id tries n) ∈ taken) :
    freeFrom taken id tries n = n + tries := by
  induction tries generalizing n with
  | zero => rfl
  | succ tries ih =>
      rw [freeFrom] at h ⊢
      split at h
      · next htaken => rw [if_pos htaken, ih h, Nat.add_assoc, Nat.add_comm 1]
      · next hfree => exact absurd (by simpa using h) hfree

/-- With as many tries as there are ids, the number makes a new one. -/
theorem freeFrom_not_mem (id : Text) (n : Nat) :
    numbered id (freeFrom taken id taken.length n) ∉ taken := by
  intro hmem
  have hlast := freeFrom_of_mem hmem
  have hall : (List.range' n (taken.length + 1)).map (numbered id) ⊆ taken := by
    intro t ht
    obtain ⟨i, hi, rfl⟩ := List.mem_map.mp ht
    obtain ⟨hni, hin⟩ := List.mem_range'_1.mp hi
    rcases Nat.lt_or_ge i (n + taken.length) with hlt | hge
    · exact mem_of_lt_freeFrom hni (hlast ▸ hlt)
    · rw [← hlast] at hge
      rwa [Nat.le_antisymm (by omega) hge]
  have hnodup : ((List.range' n (taken.length + 1)).map (numbered id)).Nodup :=
    (List.nodup_range' 1).map (numbered_injective id)
  have := (hnodup.subperm hall).length_le
  rw [List.length_map, List.length_range'] at this
  omega

/-! ## One id -/

/-- What is handed out for a wanted id. -/
def IssuedFor (w id : Text) : Prop := id = w ∨ ∃ k, 2 ≤ k ∧ id = numbered w k

/-- Ids handed out so far, each tried with a number from one on. -/
def Counted (ids : StateIds) : Prop := ∀ id n, ids.counts.get? id = some n → 1 ≤ n

theorem counted_fresh : fresh.Counted := nofun

theorem Counted.set {t : Table Text Nat} (h : Counted ⟨t⟩) (hn : 1 ≤ n) : Counted ⟨t.set id n⟩ := by
  intro j m hj
  rw [Table.get?_set] at hj
  split at hj
  · exact Option.some.inj hj ▸ hn
  · exact h j m hj

/-- One step: the id is for what is wanted, and new, and all that is added. -/
theorem claim_spec (h : ids.Counted) (w : Text) :
    IssuedFor w (ids.claim w).1 ∧ (ids.claim w).1 ∉ ids.counts.keys ∧
      (∀ j, j ∈ (ids.claim w).2.counts.keys ↔ j = (ids.claim w).1 ∨ j ∈ ids.counts.keys) ∧
      (ids.claim w).2.Counted := by
  unfold claim
  cases hw : ids.counts.get? w with
  | none =>
      refine ⟨.inl rfl, Table.get?_eq_none_iff.mp hw, fun j ↦ Table.mem_keys_set, h.set (Nat.le_refl 1)⟩
  | some n =>
      have hcount := h w n hw
      have hk : n + 1 ≤ freeFrom ids.counts.keys w ids.counts.size (n + 1) := le_freeFrom _ _ _ _
      have hkey : w ∈ ids.counts.keys := by
        by_contra hno
        rw [Table.get?_eq_none_iff.mpr hno] at hw
        cases hw
      refine ⟨.inr ⟨_, by omega, rfl⟩, ?_, fun j ↦ ?_, (h.set (by omega)).set (Nat.le_refl 1)⟩
      · rw [← Table.length_keys]
        exact freeFrom_not_mem w (n + 1)
      · rw [Table.mem_keys_set, Table.mem_keys_set]
        refine or_congr_right ⟨?_, Or.inr⟩
        rintro (rfl | hj)
        · exact hkey
        · exact hj

/-! ## Many ids -/

theorem claimAll_cons (ids : StateIds) (w : Text) (ws : List Text) :
    ids.claimAll (w :: ws) =
      ((ids.claim w).1 :: ((ids.claim w).2.claimAll ws).1, ((ids.claim w).2.claimAll ws).2) := rfl

theorem claimAll_append (ids : StateIds) (ws vs : List Text) :
    ids.claimAll (ws ++ vs) =
      ((ids.claimAll ws).1 ++ ((ids.claimAll ws).2.claimAll vs).1, ((ids.claimAll ws).2.claimAll vs).2) := by
  induction ws generalizing ids with
  | nil => rfl
  | cons w ws ih =>
      rw [List.cons_append, claimAll_cons, claimAll_cons, ih]
      rfl

theorem length_claimAll (ids : StateIds) (ws : List Text) :
    (ids.claimAll ws).1.length = ws.length := by
  induction ws generalizing ids with
  | nil => rfl
  | cons w ws ih => exact congrArg (· + 1) (ih (ids.claim w).2)

theorem claimAll_counted (h : ids.Counted) (ws : List Text) : (ids.claimAll ws).2.Counted := by
  induction ws generalizing ids with
  | nil => exact h
  | cons w ws ih => exact ih (claim_spec h w).2.2.2

/-- A whole run: the ids are for what is wanted, in order, new, and no two the same. -/
theorem claimAll_spec (h : ids.Counted) (ws : List Text) :
    List.Forall₂ IssuedFor ws (ids.claimAll ws).1 ∧ (ids.claimAll ws).1.Nodup ∧
      ∀ id ∈ (ids.claimAll ws).1, id ∉ ids.counts.keys := by
  induction ws generalizing ids with
  | nil => exact ⟨.nil, .nil, nofun⟩
  | cons w ws ih =>
      obtain ⟨hissued, hnew, hkeys, hcounted⟩ := claim_spec h w
      obtain ⟨hrest, hnodup, hdisjoint⟩ := ih hcounted
      rw [claimAll_cons]
      refine ⟨.cons hissued hrest, List.nodup_cons.mpr ⟨fun hmem ↦ ?_, hnodup⟩, ?_⟩
      · exact hdisjoint _ hmem ((hkeys _).mpr (.inl rfl))
      · refine List.forall_mem_cons.mpr ⟨hnew, fun id hid hmem ↦ ?_⟩
        exact hdisjoint id hid ((hkeys id).mpr (.inr hmem))

end StateIds

end Saltern
