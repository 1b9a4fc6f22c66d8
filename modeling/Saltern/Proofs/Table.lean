import Saltern.Table

/-!
# Tables and their keys
-/

namespace Saltern.Table

variable {κ α : Type} [DecidableEq κ] {t : Table κ α} {k j : κ} {v : α} {es : List (κ × α)} {e : κ × α}

theorem lookup_eq_none_iff : lookup k es = none ↔ k ∉ es.map Prod.fst := by
  induction es with
  | nil => simp [lookup]
  | cons e es ih =>
      rw [lookup, List.map_cons, List.mem_cons, not_or]
      by_cases h : e.1 = k
      · simp [h]
      · rw [if_neg h, ih, and_iff_right fun hk ↦ h hk.symm]

theorem get?_eq_none_iff : t.get? k = none ↔ k ∉ t.keys := lookup_eq_none_iff

theorem keys_set (t : Table κ α) (k : κ) (v : α) :
    (t.set k v).keys = if k ∈ t.keys then t.keys else t.keys ++ [k] := map_fst_write k v t.entries

theorem mem_keys_set : j ∈ (t.set k v).keys ↔ j = k ∨ j ∈ t.keys := by
  rw [keys_set]
  split
  · next hk =>
    refine ⟨Or.inr, ?_⟩
    rintro (rfl | hj)
    · exact hk
    · exact hj
  · rw [List.mem_append, List.mem_singleton, or_comm]

omit [DecidableEq κ] in
theorem length_keys (t : Table κ α) : t.keys.length = t.size := List.length_map _

/-- A value that is written over at once was never there. -/
theorem set_set (t : Table κ α) (k : κ) (v w : α) : (t.set k v).set k w = t.set k w := by
  have hwrite : ∀ es : List (κ × α), write k w (write k v es) = write k w es := by
    intro es
    induction es with
    | nil => simp [write]
    | cons e es ih =>
        by_cases he : e.1 = k
        · simp [write, he]
        · simp [write, he, ih]
  simp only [set, hwrite]

theorem entries_ext {fs : List (κ × α)} (hkeys : es.map Prod.fst = fs.map Prod.fst)
    (hnodup : (es.map Prod.fst).Nodup) (h : ∀ k, lookup k es = lookup k fs) : es = fs := by
  induction es generalizing fs with
  | nil => exact (List.map_eq_nil_iff.mp hkeys.symm).symm
  | cons e es ih =>
      obtain ⟨f, fs, rfl, hkey, hrest⟩ := List.map_eq_cons_iff.mp hkeys.symm
      rw [List.map_cons, List.nodup_cons] at hnodup
      have hvalue := h e.1
      rw [lookup, lookup, if_pos rfl, if_pos hkey, Option.some.injEq] at hvalue
      refine List.cons_eq_cons.mpr ⟨Prod.ext hkey.symm hvalue, ih hrest.symm hnodup.2 fun k ↦ ?_⟩
      by_cases hk : e.1 = k
      · have hnone : k ∉ es.map Prod.fst := hk ▸ hnodup.1
        rw [lookup_eq_none_iff.mpr hnone, lookup_eq_none_iff.mpr (hrest ▸ hnone)]
      · have := h k
        rwa [lookup, lookup, if_neg hk, if_neg (hkey ▸ hk)] at this

/-- Tables with the same keys in order and the same values are the same. -/
theorem ext_of_get? {u : Table κ α} (hkeys : t.keys = u.keys) (h : ∀ k, t.get? k = u.get? k) :
    t = u := by
  have hentries : t.entries = u.entries := entries_ext hkeys t.nodup h
  cases t
  cases u
  cases hentries
  rfl

theorem mem_write (h : e ∈ write k v es) : e = (k, v) ∨ e ∈ es := by
  induction es with
  | nil => exact .inl (List.mem_singleton.mp h)
  | cons d es ih =>
      unfold write at h
      split at h
      · exact (List.mem_cons.mp h).imp_right (List.mem_cons_of_mem d)
      · rcases List.mem_cons.mp h with rfl | h
        · exact .inr List.mem_cons_self
        · exact (ih h).imp_right (List.mem_cons_of_mem d)

theorem mem_setAll (h : e ∈ (t.setAll es).entries) : e ∈ es ∨ e ∈ t.entries := by
  induction es generalizing t with
  | nil => exact .inr h
  | cons d es ih =>
      rcases ih (t := t.set d.1 d.2) h with h | h
      · exact .inl (List.mem_cons_of_mem d h)
      · rcases mem_write h with rfl | h
        · exact .inl List.mem_cons_self
        · exact .inr h

/-- Nothing is in a table but what was written to it. -/
theorem mem_ofList (h : e ∈ (ofList es).entries) : e ∈ es :=
  (mem_setAll h).resolve_right nofun

end Saltern.Table
