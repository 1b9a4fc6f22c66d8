import Mathlib.Data.List.Induction
import Saltern.Proofs.Table
import Saltern.Proofs.Text.Units

/-!
# Looking up and sorting

What a table holds at a key after several entries were written, and tables of strings in the order
of their keys: sorting keeps every value, and tables with the same values are sorted alike.
-/

namespace Saltern.Table

section Lookup

variable {κ α : Type} [DecidableEq κ] {t u : Table κ α} {k j : κ} {v : α} {es fs : List (κ × α)}

theorem lookup_append (k : κ) (es fs : List (κ × α)) :
    lookup k (es ++ fs) = (lookup k es).or (lookup k fs) := by
  induction es with
  | nil => rfl
  | cons e es ih =>
      rw [List.cons_append, lookup, lookup]
      split
      · rfl
      · exact ih

/-- Of several entries written with one key the last counts. -/
theorem get?_setAll (t : Table κ α) (es : List (κ × α)) (k : κ) :
    (t.setAll es).get? k = (lookup k es.reverse).or (t.get? k) := by
  induction es generalizing t with
  | nil => rfl
  | cons e es ih =>
      rw [setAll_cons, ih, get?_set, List.reverse_cons, lookup_append, Option.or_assoc, lookup, lookup]
      split <;> rfl

theorem get?_ofList (es : List (κ × α)) (k : κ) : (ofList es).get? k = lookup k es.reverse := by
  rw [ofList, get?_setAll, get?_empty, Option.or_none]

theorem lookup_eq_find? (k : κ) (es : List (κ × α)) :
    lookup k es = (es.find? fun e ↦ decide (e.1 = k)).map Prod.snd := by
  induction es with
  | nil => rfl
  | cons e es ih =>
      rw [lookup, List.find?_cons, ih]
      by_cases h : e.1 = k <;> simp [h]

/-- At each key stands the value of its last entry. -/
theorem get?_ofList_eq_getLast? (es : List (κ × α)) (k : κ) :
    (ofList es).get? k = (es.filter fun e ↦ decide (e.1 = k)).getLast?.map Prod.snd := by
  rw [get?_ofList, lookup_eq_find?, List.getLast?_filter]

/-- Each key stands where its first entry does. -/
theorem keys_ofList [BEq κ] [LawfulBEq κ] (es : List (κ × α)) :
    (ofList es).keys = (es.map Prod.fst).eraseDups := by
  have hconcat : ∀ (es : List (κ × α)) (e : κ × α), ofList (es ++ [e]) = (ofList es).set e.1 e.2 := by
    intro es e
    rw [ofList, setAll, List.foldl_append]
    rfl
  induction es using List.reverseRecOn with
  | nil => rfl
  | append_singleton es e ih =>
      rw [hconcat, keys_set, ih, List.map_append, List.eraseDups_append, List.map_singleton]
      by_cases h : e.1 ∈ es.map Prod.fst
      · rw [if_pos (List.mem_eraseDups.mpr h)]
        simp [List.removeAll, h]
      · rw [if_neg fun hmem ↦ h (List.mem_eraseDups.mp hmem)]
        simp [List.removeAll, h, List.eraseDups_cons]

theorem mem_keys_iff : k ∈ t.keys ↔ (t.get? k).isSome = true := by
  rw [← not_iff_not, ← get?_eq_none_iff, Option.not_isSome_iff_eq_none]

theorem isSome_lookup_iff : (lookup k es).isSome = true ↔ k ∈ es.map Prod.fst := by
  rw [← not_iff_not, ← lookup_eq_none_iff, Option.not_isSome_iff_eq_none]

theorem mem_keys_setAll : k ∈ (t.setAll es).keys ↔ k ∈ es.map Prod.fst ∨ k ∈ t.keys := by
  rw [mem_keys_iff, get?_setAll, Option.isSome_or, Bool.or_eq_true, isSome_lookup_iff, mem_keys_iff,
    List.map_reverse, List.mem_reverse]

/-- Where no two entries have one key, an entry is what is found at its key. -/
theorem lookup_eq_some_iff (h : (es.map Prod.fst).Nodup) : lookup k es = some v ↔ (k, v) ∈ es := by
  induction es with
  | nil => simp [lookup]
  | cons e es ih =>
      obtain ⟨hhead, htail⟩ := List.nodup_cons.mp h
      rw [lookup, List.mem_cons]
      split
      · next hk =>
        subst hk
        have hno : (e.1, v) ∉ es := fun hm ↦ hhead (List.mem_map.mpr ⟨_, hm, rfl⟩)
        rw [or_iff_left hno, Option.some.injEq, Prod.ext_iff]
        simp [eq_comm]
      · next hk =>
        rw [ih htail, or_iff_right fun he ↦ hk (congrArg Prod.fst he).symm]

theorem get?_eq_some_iff : t.get? k = some v ↔ (k, v) ∈ t.entries := lookup_eq_some_iff t.nodup

/-- The order of entries does not matter where no two have one key. -/
theorem lookup_of_perm (h : (es.map Prod.fst).Nodup) (hperm : es.Perm fs) (k : κ) :
    lookup k es = lookup k fs := by
  refine Option.ext fun v ↦ ?_
  rw [lookup_eq_some_iff h, lookup_eq_some_iff ((hperm.map Prod.fst).nodup_iff.mp h), hperm.mem_iff]

/-- Nor does it matter for the table that they make. -/
theorem get?_ofList_of_perm (h : (es.map Prod.fst).Nodup) (hperm : es.Perm fs) (k : κ) :
    (ofList es).get? k = lookup k fs := by
  rw [get?_ofList]
  refine lookup_of_perm ?_ ((List.reverse_perm es).trans hperm) k
  rw [List.map_reverse]
  exact (List.reverse_perm _).nodup_iff.mpr h

/-- The entries of a table, written over another one. -/
theorem get?_setAll_entries (t u : Table κ α) (k : κ) :
    (t.setAll u.entries).get? k = (u.get? k).or (t.get? k) := by
  rw [get?_setAll, ← lookup_of_perm u.nodup (List.reverse_perm u.entries).symm]
  rfl

theorem lookup_map {β : Type} (f : α → β) (es : List (κ × α)) (k : κ) :
    lookup k (es.map fun e ↦ (e.1, f e.2)) = (lookup k es).map f := by
  induction es with
  | nil => rfl
  | cons e es ih =>
      rw [List.map_cons, lookup, lookup]
      split
      · rfl
      · exact ih

theorem get?_filter (t : Table κ α) (p : κ × α → Bool) (k : κ) :
    (t.filter p).get? k = (t.get? k).filter fun v ↦ p (k, v) := by
  refine Option.ext fun v ↦ ?_
  rw [get?_eq_some_iff, filter, List.mem_filter, ← get?_eq_some_iff, Option.filter_eq_some_iff]

end Lookup

/-! ## Sorting -/

section Sorting

variable {α : Type} {t u : Table Units α} {k : Units}

theorem perm_sorted (t : Table Units α) : t.sorted.entries.Perm t.entries := List.mergeSort_perm ..

/-- Sorting keeps what stands at each key. -/
@[simp] theorem get?_sorted (t : Table Units α) (k : Units) : t.sorted.get? k = t.get? k :=
  lookup_of_perm t.sorted.nodup (perm_sorted t) k

/-- The keys of a sorted table increase from one to the next. -/
theorem pairwise_keys_sorted (t : Table Units α) : t.sorted.keys.Pairwise (· < ·) := by
  have hsorted : t.sorted.entries.Pairwise fun a b ↦ Units.precede a.1 b.1 = true := by
    refine List.pairwise_mergeSort (fun a b c hab hbc ↦ ?_) (fun a b ↦ ?_) t.entries
    · rw [Units.precede_iff] at hab hbc ⊢
      exact List.le_trans hab hbc
    · rw [Bool.or_eq_true, Units.precede_iff, Units.precede_iff]
      exact List.le_total a.1 b.1
  have hle : t.sorted.keys.Pairwise (· ≤ ·) :=
    List.pairwise_map.mpr (hsorted.imp fun h ↦ Units.precede_iff.mp h)
  refine (hle.and t.sorted.nodup).imp fun h ↦ ?_
  exact (List.le_iff_lt_or_eq.mp h.1).resolve_right h.2

/-- Tables in order of their keys are the same where they hold the same. -/
theorem eq_of_pairwise_keys (ht : t.keys.Pairwise (· < ·)) (hu : u.keys.Pairwise (· < ·))
    (h : ∀ k, t.get? k = u.get? k) : t = u := by
  have hmem : ∀ k, k ∈ t.keys ↔ k ∈ u.keys := by
    intro k
    rw [mem_keys_iff, mem_keys_iff, h]
  refine ext_of_get? ?_ h
  refine List.Perm.eq_of_pairwise (fun a b _ _ hab hba ↦ ?_) ht hu
    ((List.perm_ext_iff_of_nodup t.nodup u.nodup).mpr hmem)
  exact absurd hba (List.lt_asymm hab)

/-- Tables with the same values are sorted alike. -/
theorem sorted_congr (h : ∀ k, t.get? k = u.get? k) : t.sorted = u.sorted := by
  refine eq_of_pairwise_keys (pairwise_keys_sorted t) (pairwise_keys_sorted u) fun k ↦ ?_
  rw [get?_sorted, get?_sorted, h]

end Sorting

end Saltern.Table
