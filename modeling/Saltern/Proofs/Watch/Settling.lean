import Mathlib.Logic.Function.Iterate
import Saltern.Proofs.Project.Rewriting
import Saltern.Watch.Basic

/-!
# A watched project comes to rest

A run that rewrites its source calls for another run, since the source is what a watch minds. The runs
that follow on each other in this way only format the source again and again, so that they come to an end.
-/

namespace Saltern

open Brinefile (formatted IsSettled)

namespace Watch

variable {w : Watch} {s : Nat → Workspace} {t u : Text} {b : Brinefile} {n : Nat}

/-- A run that a watch goes through with is a run of the project; only its first message was given
before. -/
theorem rest_eq (w : Watch) (s : Workspace) :
    (w.rest s).workspace = ((Project.run w.root w.request w.runner).run s).workspace ∧
      (w.rest s).report.result = ((Project.run w.root w.request w.runner).run s).report.result := by
  rw [rest, Project.run]
  cases h : (Project.search w.root w.request s.tree).result with
  | error e =>
      have hlook : ((Action.look (Project.search w.root w.request)).run s).report.result = .error e := h
      obtain ⟨hworkspace, hresult⟩ := Action.run_bind_of_error hlook
      exact ⟨hworkspace.symm, hresult.symm⟩
  | ok found =>
      have hlook : ((Action.look (Project.search w.root w.request)).run s).report.result = .ok found := h
      obtain ⟨hworkspace, hresult⟩ := Action.run_bind_of_ok hlook
      exact ⟨hworkspace.symm, hresult.symm⟩

/-- A run that rewrites the source puts it into canonical layout, which it was not in. -/
theorem rewrites_spec {s : Workspace} {path : Path} (h : (w.rest s).Rewrites path) :
    ∃ old text, s.tree.node? path = some (.file old) ∧ Brinefile.format true old = .ok ⟨text, true⟩ ∧
      (w.rest s).tree.node? path = some (.file text) := by
  obtain ⟨hworkspace, hresult⟩ := w.rest_eq s
  unfold Outcome.tree
  rw [hworkspace]
  refine Project.rewrites_spec ?_
  rwa [Outcome.Rewrites, ← hresult]

/-- Runs that each find the source as the one before has left it are at rest once it is settled. -/
theorem exists_not_rewrites (ht : formatted true n t = .ok u) (hu : IsSettled true u)
    (hfirst : (s 0).tree.node? w.source = some (.file t))
    (hnext : ∀ m, (s (m + 1)).tree.node? w.source = (w.rest (s m)).tree.node? w.source) :
    ∃ m ≤ n, ¬ (w.rest (s m)).Rewrites w.source := by
  induction n generalizing t s with
  | zero =>
      obtain rfl := Except.ok.inj ht
      refine ⟨0, Nat.le_refl 0, fun h ↦ ?_⟩
      obtain ⟨old, text, hold, hformat, -⟩ := rewrites_spec h
      cases hold.symm.trans hfirst
      cases hformat.symm.trans hu
  | succ n ih =>
      by_cases h : (w.rest (s 0)).Rewrites w.source
      · obtain ⟨old, text, hold, hformat, htext⟩ := rewrites_spec h
        cases hold.symm.trans hfirst
        rw [Brinefile.formatted_succ hformat] at ht
        obtain ⟨m, hm, hrest⟩ :=
          ih (s := fun m ↦ s (m + 1)) ht ((hnext 0).trans htext) fun m ↦ hnext (m + 1)
        exact ⟨m + 1, Nat.succ_le_succ hm, hrest⟩
      · exact ⟨0, Nat.zero_le _, h⟩

/-- A text that can be cut into sections settles when it is formatted often enough; and as many runs of a
watched project, each finding the source as the one before has left it, do not all rewrite it. -/
theorem settles (preserveNewlines : Bool) (hb : Brinefile.ofText t = .ok b) :
    ∃ n u, formatted preserveNewlines n t = .ok u ∧ IsSettled preserveNewlines u ∧
      (preserveNewlines = true → ∀ (w : Watch) (s : Nat → Workspace),
        (s 0).tree.node? w.source = some (.file t) →
        (∀ m, (s (m + 1)).tree.node? w.source = (w.rest (s m)).tree.node? w.source) →
        ∃ m ≤ n, ¬ (w.rest (s m)).Rewrites w.source) := by
  obtain ⟨n, u, hu, hsettled⟩ := Brinefile.exists_settled preserveNewlines hb
  refine ⟨n, u, hu, hsettled, ?_⟩
  rintro rfl w s hfirst hnext
  exact exists_not_rewrites hu hsettled hfirst hnext

/-- A source in which a line ends in two stray returns. -/
theorem settles_stray_returns :
    let text : Text := "%Rolename\nr\n%description\nd\n%readme\nx\r\r\n"
    let w : Watch := ⟨.top, ⟨none, none, true⟩, .ofText "/Brinefile", 0, .watch, .runner, .start, 0⟩
    let s : Nat → Workspace := fun m ↦
      (fun s ↦ (w.rest s).workspace)^[m] (.ofTree (Project.sourceTree text []))
    ∃ n u, formatted true n text = .ok u ∧ IsSettled true u ∧
      ∃ m ≤ n, ¬ (w.rest (s m)).Rewrites w.source := by
  intro text w s
  obtain ⟨n, u, hu, hsettled, hruns⟩ := settles true (t := text) rfl
  refine ⟨n, u, hu, hsettled, hruns rfl w s rfl fun m ↦ ?_⟩
  simp only [s, Function.iterate_succ_apply']
  rfl

end Watch

end Saltern
