import Mathlib.Data.List.Basic
import Saltern.Text.Basic

/-!
# Runs

The longest stretches of a text whose characters satisfy a test. What cutting them out yields is the one way to
write a text as such stretches with gaps around them.
-/

namespace Saltern.Text

variable {p : Char → Bool} {t u w g : Text} {ws : List Text} {c : Char}

/-! ## Cutting runs out -/

theorem runs_cons_of_neg (hc : p c = false) (t : Text) : runs p (c :: t) = runs p t := by
  cases t with
  | nil => simp [runs, hc]
  | cons d t => simp [runs, hc]

theorem runs_append_of_neg (h : ∀ c ∈ u, p c = false) (t : Text) : runs p (u ++ t) = runs p t := by
  induction u with
  | nil => rfl
  | cons c u ih =>
      obtain ⟨hc, hu⟩ := List.forall_mem_cons.mp h
      rw [List.cons_append, runs_cons_of_neg hc, ih hu]

/-- A run ends where a character fails the test. -/
theorem runs_append (hne : w ≠ []) (hw : ∀ c ∈ w, p c = true) (ht : ∀ c ∈ t.head?, p c = false) :
    runs p (w ++ t) = w :: runs p t := by
  induction w with
  | nil => exact absurd rfl hne
  | cons c w ih =>
      obtain ⟨hc, hw⟩ := List.forall_mem_cons.mp hw
      cases w with
      | nil =>
          cases t with
          | nil => simp [runs, hc]
          | cons d t => simp [runs, hc, ht d rfl]
      | cons d w =>
          have hd : p d = true := hw d List.mem_cons_self
          rw [List.cons_append, List.cons_append, runs, if_pos hc, if_pos hd, ← List.cons_append,
            ih (List.cons_ne_nil d w) hw, consHead]

theorem forall_mem_runs (h : w ∈ runs p t) : ∀ c ∈ w, p c = true := by
  have hhead : ∀ {c : Char} {ts : List Text}, p c = true → (∀ v ∈ ts, ∀ d ∈ v, p d = true) →
      ∀ v ∈ consHead c ts, ∀ d ∈ v, p d = true := by
    intro c ts hc hts
    cases ts with
    | nil => simpa [consHead] using hc
    | cons t ts =>
        obtain ⟨ht, hts⟩ := List.forall_mem_cons.mp hts
        exact List.forall_mem_cons.mpr ⟨List.forall_mem_cons.mpr ⟨hc, ht⟩, hts⟩
  suffices hall : ∀ v ∈ runs p t, ∀ d ∈ v, p d = true from hall w h
  clear h
  fun_induction runs p t with
  | case1 => exact List.forall_mem_nil _
  | case2 c hc => simpa using hc
  | case3 c _ => exact List.forall_mem_nil _
  | case4 c d r hc hd ih => exact hhead hc ih
  | case5 c d r hc hd ih => exact List.forall_mem_cons.mpr ⟨by simpa using hc, ih⟩
  | case6 c d r hc ih => exact ih

theorem ne_nil_of_mem_runs (h : w ∈ runs p t) : w ≠ [] := by
  suffices hall : [] ∉ runs p t from fun hw ↦ hall (hw ▸ h)
  clear h
  fun_induction runs p t with
  | case1 => exact List.not_mem_nil
  | case2 c hc => simp
  | case3 c _ => exact List.not_mem_nil
  | case4 c d r hc hd ih => cases h : runs p (d :: r) <;> simp_all [consHead]
  | case5 c d r hc hd ih => simpa using ih
  | case6 c d r hc ih => exact ih

/-! ## What the runs of a text are -/

/-- The stretches of a text whose characters satisfy a test, in order: nothing but gaps stands around them, and
none of them can be made longer. -/
inductive HasRuns (p : Char → Bool) : Text → List Text → Prop
  | gap {g : Text} (hg : ∀ c ∈ g, p c = false) : HasRuns p g []
  | run {g w t : Text} {ws : List Text} (hg : ∀ c ∈ g, p c = false) (hne : w ≠ []) (hw : ∀ c ∈ w, p c = true)
      (ht : ∀ c ∈ t.head?, p c = false) (h : HasRuns p t ws) : HasRuns p (g ++ (w ++ t)) (w :: ws)

theorem HasRuns.runs_eq (h : HasRuns p t ws) : runs p t = ws := by
  induction h with
  | gap hg => simpa [runs] using runs_append_of_neg hg []
  | run hg hne hw ht _ ih => rw [runs_append_of_neg hg, runs_append hne hw ht, ih]

theorem HasRuns.cons_of_neg (h : HasRuns p t ws) (hc : p c = false) : HasRuns p (c :: t) ws := by
  cases h with
  | gap hg => exact .gap (List.forall_mem_cons.mpr ⟨hc, hg⟩)
  | run hg hne hw ht h => exact .run (List.forall_mem_cons.mpr ⟨hc, hg⟩) hne hw ht h

/-- One more character makes the first run longer, or is a run where a gap stands behind it. -/
theorem HasRuns.exists_cons_of_pos (h : HasRuns p t ws) (hc : p c = true) : ∃ vs, HasRuns p (c :: t) vs := by
  have hone : ∀ d ∈ [c], p d = true := by simpa using hc
  cases h with
  | gap hg =>
      exact ⟨_, .run (g := []) nofun (List.cons_ne_nil c []) hone (fun d hd ↦ hg d (List.mem_of_mem_head? hd))
        (.gap hg)⟩
  | @run g w t ws hg hne hw ht h =>
      cases g with
      | nil => exact ⟨_, .run (g := []) nofun (List.cons_ne_nil c w) (List.forall_mem_cons.mpr ⟨hc, hw⟩) ht h⟩
      | cons d g =>
          have hd : ∀ e ∈ (d :: g ++ (w ++ t)).head?, p e = false := by
            rintro e ⟨rfl⟩
            exact hg d List.mem_cons_self
          exact ⟨_, .run (g := []) nofun (List.cons_ne_nil c []) hone hd (.run hg hne hw ht h)⟩

theorem exists_hasRuns (p : Char → Bool) (t : Text) : ∃ ws, HasRuns p t ws := by
  induction t with
  | nil => exact ⟨[], .gap nofun⟩
  | cons c t ih =>
      obtain ⟨ws, h⟩ := ih
      cases hc : p c with
      | false => exact ⟨ws, h.cons_of_neg hc⟩
      | true => exact h.exists_cons_of_pos hc

/-- Each text has one list of runs, which is what cutting finds. -/
theorem hasRuns_iff : HasRuns p t ws ↔ runs p t = ws := by
  refine ⟨HasRuns.runs_eq, ?_⟩
  rintro rfl
  obtain ⟨ws, h⟩ := exists_hasRuns p t
  exact h.runs_eq ▸ h

theorem HasRuns.forall_mem (h : HasRuns p t ws) : ∀ w ∈ ws, w ≠ [] ∧ ∀ c ∈ w, p c = true := by
  intro w hw
  rw [← hasRuns_iff.mp h] at hw
  exact ⟨ne_nil_of_mem_runs hw, forall_mem_runs hw⟩

theorem HasRuns.eq_nil_iff (h : HasRuns p t ws) : ws = [] ↔ ∀ c ∈ t, p c = false := by
  cases h with
  | gap hg => exact iff_of_true rfl hg
  | @run g w t ws hg hne hw ht h =>
      obtain ⟨c, w, rfl⟩ := List.exists_cons_of_ne_nil hne
      refine iff_of_false (List.cons_ne_nil _ ws) fun hall ↦ ?_
      have hc := hall c (by simp)
      rw [hw c List.mem_cons_self] at hc
      cases hc

end Saltern.Text
