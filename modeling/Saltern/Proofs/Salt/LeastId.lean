import Saltern.Proofs.Salt.StateId

/-!
# The least free id

An id that was handed out before is looked for under its next number, and under the one after that,
until one is new. Wherever it starts, the search ends, and it ends with what is handed out: the wanted
id, or the wanted id with the least number from two on that no id before it has.
-/

namespace Saltern.StateIds

variable {ids ids' ids'' : StateIds} {id w got got' : Text} {n k : Nat} {used taken : List Text}

/-! ## The search -/

/-- How an id is looked for. A new one is found; any other is counted once more, and the search goes
on with the id that its number makes, or with the same id where that one is taken. -/
inductive Finds : StateIds → Text → Text → StateIds → Prop
  | new {ids : StateIds} {id : Text} (h : ids.counts.get? id = none) :
      Finds ids id id ⟨ids.counts.set id 1⟩
  | again {ids ids' : StateIds} {id got : Text} {n : Nat} (h : ids.counts.get? id = some n)
      (hrest : Finds ⟨ids.counts.set id (n + 1)⟩
        (if numbered id (n + 1) ∈ (ids.counts.set id (n + 1)).keys then id else numbered id (n + 1)) got ids') :
      Finds ids id got ids'

/-- A search has one outcome. -/
theorem Finds.unique (h : Finds ids w got ids') (h' : Finds ids w got' ids'') : got' = got ∧ ids'' = ids' := by
  induction h with
  | new hnone =>
      cases h' with
      | new => exact ⟨rfl, rfl⟩
      | again hsome => cases hnone.symm.trans hsome
  | again hsome _ ih =>
      cases h' with
      | new hnone => cases hnone.symm.trans hsome
      | again hsome' hrest =>
          obtain rfl := Option.some.inj (hsome.symm.trans hsome')
          exact ih hrest

/-- Counting an id once more adds none. -/
theorem keys_set_of_get? (h : ids.counts.get? id = some n) (m : Nat) :
    (ids.counts.set id m).keys = ids.counts.keys := by
  rw [Table.keys_set, if_pos]
  by_contra hno
  rw [Table.get?_eq_none_iff.mpr hno] at h
  cases h

/-- With tries enough to come to a new id, the search ends with it. -/
theorem finds_freeFrom {tries : Nat} (h : ids.counts.get? id = some n) (hkeys : ids.counts.keys = taken)
    (hk : freeFrom taken id tries (n + 1) = k) (hnew : numbered id k ∉ taken) :
    Finds ids id (numbered id k) ⟨(ids.counts.set id k).set (numbered id k) 1⟩ := by
  induction tries generalizing ids n with
  | zero =>
      obtain rfl : n + 1 = k := hk
      rw [← hkeys, ← keys_set_of_get? h (n + 1)] at hnew
      refine .again h ?_
      rw [if_neg hnew]
      exact .new (Table.get?_eq_none_iff.mpr hnew)
  | succ tries ih =>
      rw [freeFrom] at hk
      refine .again h ?_
      split at hk
      · next htaken =>
        have hmem : numbered id (n + 1) ∈ (ids.counts.set id (n + 1)).keys := by
          rw [keys_set_of_get? h, hkeys]
          simpa using htaken
        have hcount : (ids.counts.set id (n + 1)).get? id = some (n + 1) := by
          rw [Table.get?_set, if_pos rfl]
        have hrest := @ih ⟨ids.counts.set id (n + 1)⟩ (n + 1) hcount ((keys_set_of_get? h _).trans hkeys) hk
        rw [Table.set_set] at hrest
        rwa [if_pos hmem]
      · obtain rfl : n + 1 = k := hk
        rw [← hkeys, ← keys_set_of_get? h (n + 1)] at hnew
        rw [if_neg hnew]
        exact .new (Table.get?_eq_none_iff.mpr hnew)

/-- The search for an id ends, with the one that is handed out. -/
theorem finds_iff : Finds ids w got ids' ↔ ids.claim w = (got, ids') := by
  have hends : Finds ids w (ids.claim w).1 (ids.claim w).2 := by
    unfold claim
    cases hw : ids.counts.get? w with
    | none => exact .new hw
    | some n =>
        refine finds_freeFrom hw rfl rfl ?_
        rw [← Table.length_keys]
        exact freeFrom_not_mem w (n + 1)
  constructor
  · intro h
    obtain ⟨hgot, hids⟩ := h.unique hends
    exact Prod.ext hgot hids
  · intro h
    rwa [h] at hends

/-! ## The least number -/

/-- Whether an id is the one to hand out for a wanted one behind others: that one itself while it is new,
and else the wanted one with the least number from two on that makes a new one. -/
inductive IsNext (used : List Text) (w : Text) : Text → Prop
  | wanted (h : w ∉ used) : IsNext used w w
  | numbered {k : Nat} (h : w ∈ used) (hk : 2 ≤ k) (hnew : numbered w k ∉ used)
      (hleast : ∀ i, 2 ≤ i → i < k → numbered w i ∈ used) : IsNext used w (numbered w k)

/-- Whether a number is a count of an id behind others: the id came, and all numbers up to that one. -/
def Reached (used : List Text) (id : Text) (n : Nat) : Prop := 1 ≤ n ∧ ∀ i, 2 ≤ i → i ≤ n → numbered id i ∈ used

theorem reached_one (used : List Text) (id : Text) : Reached used id 1 :=
  ⟨Nat.le_refl 1, fun _ hi hi' ↦ absurd (Nat.le_trans hi hi') (by decide)⟩

/-- Ids that were handed out, each counted as far as its numbers were. -/
structure Accounts (ids : StateIds) (used : List Text) : Prop where
  mem_keys : ∀ id, id ∈ ids.counts.keys ↔ id ∈ used
  reached : ∀ id n, ids.counts.get? id = some n → Reached used id n

theorem accounts_fresh : fresh.Accounts [] := ⟨fun _ ↦ Iff.rfl, nofun⟩

theorem reached_of_set {t : Table Text Nat} (h : ∀ id n, t.get? id = some n → Reached used id n)
    (hk : Reached used w k) : ∀ id n, (t.set w k).get? id = some n → Reached used id n := by
  intro id n hn
  rw [Table.get?_set] at hn
  split at hn
  · next hid =>
    cases hn
    exact hid ▸ hk
  · exact h id n hn

/-- What is handed out for an id that was handed out before. -/
theorem exists_claim_eq (h : ids.counts.get? w = some n) :
    ∃ k, n < k ∧ (∀ i, n < i → i < k → numbered w i ∈ ids.counts.keys) ∧ numbered w k ∉ ids.counts.keys ∧
      ids.claim w = (numbered w k, ⟨(ids.counts.set w k).set (numbered w k) 1⟩) := by
  refine ⟨freeFrom ids.counts.keys w ids.counts.size (n + 1), le_freeFrom _ _ _ _,
    fun i ↦ mem_of_lt_freeFrom, ?_, ?_⟩
  · rw [← Table.length_keys]
    exact freeFrom_not_mem w (n + 1)
  · rw [claim, h]

/-- One step: what is handed out is next, and it is accounted for from then on. -/
theorem Accounts.claim (h : ids.Accounts used) (w : Text) :
    IsNext used w (ids.claim w).1 ∧ (ids.claim w).2.Accounts (used ++ [(ids.claim w).1]) := by
  obtain ⟨-, -, hkeys, -⟩ := claim_spec (fun id n hn ↦ (h.reached id n hn).1) w
  have hmem : ∀ id, id ∈ (ids.claim w).2.counts.keys ↔ id ∈ used ++ [(ids.claim w).1] := by
    intro id
    rw [hkeys, h.mem_keys, List.mem_append, List.mem_singleton, or_comm]
  have hold : ∀ got id n, ids.counts.get? id = some n → Reached (used ++ [got]) id n := by
    intro got id n hn
    obtain ⟨hpos, hnumbers⟩ := h.reached id n hn
    exact ⟨hpos, fun i hi hin ↦ List.mem_append_left _ (hnumbers i hi hin)⟩
  cases hw : ids.counts.get? w with
  | none =>
      have hnew : w ∉ used := (h.mem_keys w).not.mp (Table.get?_eq_none_iff.mp hw)
      have hclaim : ids.claim w = (w, ⟨ids.counts.set w 1⟩) := by rw [StateIds.claim, hw]
      rw [hclaim] at hmem ⊢
      exact ⟨.wanted hnew, hmem, reached_of_set (hold w) (reached_one _ w)⟩
  | some n =>
      obtain ⟨k, hnk, htaken, hnew, hclaim⟩ := exists_claim_eq hw
      obtain ⟨hpos, hnumbers⟩ := h.reached w n hw
      have hused : w ∈ used := by
        rw [← h.mem_keys, ← not_not (a := w ∈ ids.counts.keys), ← Table.get?_eq_none_iff, hw]
        nofun
      have hleast : ∀ i, 2 ≤ i → i < k → numbered w i ∈ used := by
        intro i hi hik
        rcases Nat.lt_or_ge n i with hni | hin
        · exact (h.mem_keys _).mp (htaken i hni hik)
        · exact hnumbers i hi hin
      have hreached : Reached (used ++ [numbered w k]) w k := by
        refine ⟨by omega, fun i hi hik ↦ ?_⟩
        rcases Nat.eq_or_lt_of_le hik with rfl | hik
        · exact List.mem_append_right _ (List.mem_singleton_self _)
        · exact List.mem_append_left _ (hleast i hi hik)
      rw [hclaim] at hmem ⊢
      refine ⟨.numbered hused (by omega) ((h.mem_keys _).not.mp hnew) hleast, hmem, ?_⟩
      exact reached_of_set (reached_of_set (hold _) hreached) (reached_one _ _)

/-- A whole run: all that was handed out is accounted for. -/
theorem Accounts.claimAll (h : ids.Accounts used) (ws : List Text) :
    (ids.claimAll ws).2.Accounts (used ++ (ids.claimAll ws).1) := by
  induction ws generalizing ids used with
  | nil => rwa [StateIds.claimAll, List.append_nil]
  | cons w ws ih =>
      have hrest := ih (h.claim w).2
      rwa [List.append_assoc] at hrest

/-- Behind any ids that were handed out, the search for one more ends with the wanted id while that
one is new, and else with the least number from two on that makes a new one. This is what is handed
out, and so no two ids are the same. -/
theorem claimAll_isNext (ws : List Text) (w : Text) :
    ∃ got ids, Finds (fresh.claimAll ws).2 w got ids ∧
      fresh.claimAll (ws ++ [w]) = ((fresh.claimAll ws).1 ++ [got], ids) ∧
      IsNext (fresh.claimAll ws).1 w got ∧ ((fresh.claimAll ws).1 ++ [got]).Nodup := by
  have haccounts := accounts_fresh.claimAll ws
  rw [List.nil_append] at haccounts
  obtain ⟨hnext, -⟩ := haccounts.claim w
  have happend : fresh.claimAll (ws ++ [w]) =
      ((fresh.claimAll ws).1 ++ [((fresh.claimAll ws).2.claim w).1], ((fresh.claimAll ws).2.claim w).2) :=
    claimAll_append fresh ws [w]
  obtain ⟨-, hnodup, -⟩ := claimAll_spec counted_fresh (ws ++ [w])
  rw [happend] at hnodup
  exact ⟨_, _, finds_iff.mpr rfl, happend, hnext, hnodup⟩

/-- An id that a number made is passed over, and gets numbers of its own. -/
example : (fresh.claimAll ["a".toList, "a_2".toList, "a".toList, "a_2".toList]).1 =
    ["a".toList, "a_2".toList, "a_3".toList, "a_2_2".toList] := rfl

end Saltern.StateIds
