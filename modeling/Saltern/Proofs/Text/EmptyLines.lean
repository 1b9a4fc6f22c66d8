import Mathlib.Data.List.Chain
import Saltern.Proofs.Text.Edges

/-!
# Empty lines

Cutting empty lines off at the edges, as trimming does with blanks; and where two empty lines stand
side by side.
-/

namespace Saltern.Text

variable {ts us vs : List Text}

/-! ## Empty edges -/

theorem trimEmptyEdges_eq_stripEdges (ts : List Text) :
    trimEmptyEdges ts = stripEdges List.isEmpty ts := rfl

theorem bareEdges_trimEmptyEdges (ts : List Text) : BareEdges List.isEmpty (trimEmptyEdges ts) :=
  bareEdges_stripEdges List.isEmpty ts

theorem mem_of_mem_trimEmptyEdges {t : Text} (h : t ∈ trimEmptyEdges ts) : t ∈ ts :=
  (stripEdges_sublist List.isEmpty ts).subset h

/-- Only empty lines are cut off at the edges. -/
theorem exists_eq_trimEmptyEdges (ts : List Text) :
    ∃ us vs, ts = us ++ trimEmptyEdges ts ++ vs ∧ (∀ t ∈ us, t = []) ∧ ∀ t ∈ vs, t = [] := by
  simpa [trimEmptyEdges_eq_stripEdges] using exists_eq_stripEdges List.isEmpty ts

theorem trimEmptyEdges_eq_self_iff : trimEmptyEdges ts = ts ↔ BareEdges List.isEmpty ts :=
  stripEdges_eq_self_iff

@[simp] theorem trimEmptyEdges_trimEmptyEdges (ts : List Text) :
    trimEmptyEdges (trimEmptyEdges ts) = trimEmptyEdges ts :=
  trimEmptyEdges_eq_self_iff.mpr (bareEdges_trimEmptyEdges ts)

@[simp] theorem trimEmptyEdges_append_nil (ts : List Text) :
    trimEmptyEdges (ts ++ [[]]) = trimEmptyEdges ts :=
  stripEdges_append_append (a := []) nofun (by simp)

/-- A choice among lines that passes over empty ones does not see the edges. -/
theorem filter_trimEmptyEdges {q : Text → Bool} (hq : q [] = false) (ts : List Text) :
    (trimEmptyEdges ts).filter q = ts.filter q := by
  obtain ⟨us, vs, hts, hus, hvs⟩ := exists_eq_trimEmptyEdges ts
  have hnone : ∀ ws : List Text, (∀ t ∈ ws, t = []) → ws.filter q = [] := by
    intro ws hws
    rw [List.filter_eq_nil_iff]
    intro t ht
    simp [hws t ht, hq]
  conv => rhs; rw [hts]
  rw [List.filter_append, List.filter_append, hnone us hus, hnone vs hvs]
  simp

/-! ## Empty lines side by side -/

/-- Lines no two neighbours of which are both empty. -/
def NoDoubleEmpty (ts : List Text) : Prop := ts.IsChain fun a b ↦ ¬ (a = [] ∧ b = [])

theorem not_noDoubleEmpty_iff :
    ¬ NoDoubleEmpty ts ↔ ∃ us vs, ts = us ++ [] :: [] :: vs := by
  rw [NoDoubleEmpty, List.isChain_iff_forall_rel_of_append_cons_cons]
  constructor
  · intro h
    by_contra hno
    exact h fun a b us vs hts hab ↦ hno ⟨us, vs, by rw [hts, hab.1, hab.2]⟩
  · rintro ⟨us, vs, hts⟩ h
    exact h hts ⟨rfl, rfl⟩

/-- Inside the edges there are two empty lines side by side exactly when there are two with text
before and behind them. -/
theorem not_noDoubleEmpty_trimEmptyEdges_iff :
    ¬ NoDoubleEmpty (trimEmptyEdges ts) ↔
      ∃ us vs, ts = us ++ [] :: [] :: vs ∧ (∃ t ∈ us, t ≠ []) ∧ ∃ t ∈ vs, t ≠ [] := by
  rw [not_noDoubleEmpty_iff]
  constructor
  · rintro ⟨us, vs, h⟩
    obtain ⟨es, fs, hts, -, -⟩ := exists_eq_trimEmptyEdges ts
    have hedges := bareEdges_trimEmptyEdges ts
    rw [h] at hts hedges
    refine ⟨es ++ us, vs ++ fs, by rw [hts]; simp, ?_, ?_⟩
    · cases us with
      | nil => exact absurd (hedges.1 [] rfl) (by simp)
      | cons u us => exact ⟨u, by simp, by simpa using hedges.1 u rfl⟩
    · cases hlast : vs.getLast? with
      | none =>
          rw [List.getLast?_eq_none_iff.mp hlast] at hedges
          exact absurd (hedges.2 [] (by simp)) (by simp)
      | some v =>
          have hv : v ∈ (us ++ [] :: [] :: vs).getLast? := by
            simp [List.getLast?_append, List.getLast?_cons, hlast]
          exact ⟨v, List.mem_append_left _ (List.mem_of_mem_getLast? hlast), by simpa using hedges.2 v hv⟩
  · rintro ⟨us, vs, rfl, ⟨u, hu, hune⟩, v, hv, hvne⟩
    refine ⟨us.dropWhile List.isEmpty, vs.rdropWhile List.isEmpty, ?_⟩
    have hus : us.dropWhile List.isEmpty ≠ [] := by
      intro hnil
      exact hune (List.isEmpty_iff.mp (List.dropWhile_eq_nil_iff.mp hnil u hu))
    have hvs : vs.rdropWhile List.isEmpty ≠ [] := by
      intro hnil
      exact hvne (List.isEmpty_iff.mp (List.rdropWhile_eq_nil_iff.mp hnil v hv))
    rw [trimEmptyEdges_eq_stripEdges, stripEdges, List.dropWhile_append,
      if_neg (by simpa [List.isEmpty_iff] using hus)]
    rw [List.rdropWhile, List.rdropWhile, List.reverse_append, List.reverse_cons, List.reverse_cons,
      List.append_assoc, List.append_assoc, List.dropWhile_append, if_neg]
    · simp
    · rw [List.rdropWhile] at hvs
      simpa [List.isEmpty_iff] using hvs

end Saltern.Text
