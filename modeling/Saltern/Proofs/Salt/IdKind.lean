import Saltern.Proofs.Salt.StateId
import Saltern.Proofs.Text.OneLine

/-!
# Kinds of state ids

The last word of a wanted id says what kind of state it is for, and a number behind it does not hide
that. So ids of two kinds never meet: what is handed out for a kind depends on nothing but what was
wanted of it before.
-/

namespace Saltern

namespace StateIds

variable {ids ids' ids'' : StateIds} {taken taken' : List Text} {id w k j : Text} {ws : List Text} {n : Nat}

/-- The kind of state that an id is for: its last word, or the one before if the last is a number. -/
def kindOf (id : Text) : Text :=
  match (Text.splitOn '_' id).reverse with
  | [] => []
  | [w] => w
  | w :: v :: _ => if w.all Char.isDigit then v else w

/-- A word that names a kind of states: without underscores, and no number. -/
def IsKind (k : Text) : Prop := '_' ∉ k ∧ k.all Char.isDigit = false

instance (k : Text) : Decidable (IsKind k) := inferInstanceAs (Decidable (_ ∧ _))

/-- Whether an id is for a kind, whatever number stands behind it. -/
structure Wants (k w : Text) : Prop where
  kindOf : kindOf w = k
  numbered : ∀ n, StateIds.kindOf (numbered w n) = k

theorem underscore_not_mem_numeral (n : Nat) : '_' ∉ Text.numeral n := by
  intro h
  have hdigit : '_'.isDigit = true := Nat.isDigit_of_mem_toDigits (by decide) (by decide) h
  exact absurd hdigit (by decide)

theorem all_isDigit_numeral (n : Nat) : (Text.numeral n).all Char.isDigit = true :=
  List.all_eq_true.mpr fun _ hc ↦ Nat.isDigit_of_mem_toDigits (by decide) (by decide) hc

/-- An id that ends in the word for a kind is for that kind. -/
theorem wants_append (hk : IsKind k) (t : Text) : Wants k (t ++ '_' :: k) := by
  have hwords : (Text.splitOn '_' (t ++ '_' :: k)).reverse = k :: (Text.splitOn '_' t).reverse := by
    rw [Text.splitOn_append_sep, Text.splitOn_of_not_mem hk.1, List.reverse_append, List.reverse_singleton,
      List.singleton_append]
  refine ⟨?_, fun n ↦ ?_⟩
  · rw [kindOf, hwords]
    cases (Text.splitOn '_' t).reverse with
    | nil => rfl
    | cons v vs => exact if_neg (ne_true_of_eq_false hk.2)
  · rw [numbered, kindOf, Text.splitOn_append_sep, List.reverse_append, hwords,
      Text.splitOn_of_not_mem (underscore_not_mem_numeral n)]
    exact if_pos (all_isDigit_numeral n)

/-! ## Two registries that hold the same of a kind -/

/-- The number found depends only on which numbers are taken. -/
theorem freeFrom_congr (h : ∀ i, numbered id i ∈ taken ↔ numbered id i ∈ taken') (n : Nat) :
    freeFrom taken id taken.length n = freeFrom taken' id taken'.length n := by
  have hle : ∀ {us vs : List Text}, (∀ i, numbered id i ∈ us → numbered id i ∈ vs) →
      freeFrom us id us.length n ≤ freeFrom vs id vs.length n := by
    intro us vs hsub
    refine Nat.le_of_not_lt fun hlt ↦ ?_
    exact freeFrom_not_mem id n (hsub _ (mem_of_lt_freeFrom (le_freeFrom vs id _ n) hlt))
  exact Nat.le_antisymm (hle fun i ↦ (h i).mp) (hle fun i ↦ (h i).mpr)

/-- Whether two registries hold the same ids of a kind, tried with the same numbers. -/
def AgreeOn (k : Text) (ids ids' : StateIds) : Prop :=
  ∀ id, kindOf id = k → ids.counts.get? id = ids'.counts.get? id

theorem AgreeOn.refl (k : Text) (ids : StateIds) : AgreeOn k ids ids := fun _ _ ↦ rfl

theorem AgreeOn.trans (h : AgreeOn k ids ids') (h' : AgreeOn k ids' ids'') : AgreeOn k ids ids'' :=
  fun id hid ↦ (h id hid).trans (h' id hid)

theorem AgreeOn.mem_keys_iff (h : AgreeOn k ids ids') (hid : kindOf id = k) :
    id ∈ ids.counts.keys ↔ id ∈ ids'.counts.keys := by
  rw [← not_iff_not, ← Table.get?_eq_none_iff, ← Table.get?_eq_none_iff, h id hid]

/-- Registries that agree on a kind hand out the same id for it, and agree afterwards. -/
theorem AgreeOn.claim (h : AgreeOn k ids ids') (hw : Wants k w) :
    (ids.claim w).1 = (ids'.claim w).1 ∧ AgreeOn k (ids.claim w).2 (ids'.claim w).2 := by
  have hsame := h w hw.kindOf
  unfold StateIds.claim
  cases hcount : ids'.counts.get? w with
  | none =>
      rw [hcount] at hsame
      rw [hsame]
      refine ⟨rfl, fun id hid ↦ ?_⟩
      rw [Table.get?_set, Table.get?_set, h id hid]
  | some n =>
      rw [hcount] at hsame
      have hnumber : freeFrom ids.counts.keys w ids.counts.size (n + 1) =
          freeFrom ids'.counts.keys w ids'.counts.size (n + 1) := by
        rw [← Table.length_keys, ← Table.length_keys]
        exact freeFrom_congr (fun i ↦ h.mem_keys_iff (hw.numbered i)) (n + 1)
      rw [hsame]
      dsimp only
      rw [hnumber]
      refine ⟨rfl, fun id hid ↦ ?_⟩
      simp only [Table.get?_set, h id hid]

theorem AgreeOn.claimAll (h : AgreeOn k ids ids') (hws : ∀ w ∈ ws, Wants k w) :
    (ids.claimAll ws).1 = (ids'.claimAll ws).1 := by
  induction ws generalizing ids ids' with
  | nil => rfl
  | cons w ws ih =>
      obtain ⟨hw, hws⟩ := List.forall_mem_cons.mp hws
      obtain ⟨hissued, hafter⟩ := h.claim hw
      rw [claimAll_cons, claimAll_cons, hissued, ih hafter hws]

/-! ## Ids of other kinds -/

/-- An id of another kind leaves those of this kind alone. -/
theorem agreeOn_claim (hw : Wants j w) (hne : j ≠ k) : AgreeOn k (ids.claim w).2 ids := by
  intro id hid
  have hwanted : w ≠ id := by
    rintro rfl
    exact hne (hw.kindOf.symm.trans hid)
  have hnumbered : ∀ n, numbered w n ≠ id := by
    rintro n rfl
    exact hne ((hw.numbered n).symm.trans hid)
  unfold StateIds.claim
  cases ids.counts.get? w with
  | none => exact (Table.get?_set ..).trans (if_neg hwanted)
  | some n =>
      dsimp only
      rw [Table.get?_set, if_neg (hnumbered _), Table.get?_set, if_neg hwanted]

theorem agreeOn_claimAll (hws : ∀ w ∈ ws, Wants j w) (hne : j ≠ k) : AgreeOn k (ids.claimAll ws).2 ids := by
  induction ws generalizing ids with
  | nil => exact .refl k ids
  | cons w ws ih =>
      obtain ⟨hw, hws⟩ := List.forall_mem_cons.mp hws
      exact (ih hws).trans (agreeOn_claim hw hne)

end StateIds

end Saltern
