import Saltern.Proofs.Project.Rerun
import Saltern.Proofs.Salt.Isolation

/-!
# Checks and runs

A check and a run load their configuration and their source in the same way, and find the same document in
it. What is left to a run can be done with every document: each item lies where the manifest looks for it,
and a source that was read can be formatted. So a run fails as the check has failed, or for the store, for
a path that leaves the project, or for the disk.
-/

namespace Saltern

namespace Report

variable {ε δ α β : Type} {P : ε → Prop} {r : Report ε α} {f : α → Report ε β}

/-- Whether a report, if it fails, does so for a reason of some kind. -/
def FailsOnly (P : ε → Prop) (r : Report ε α) : Prop := ∀ e, r.result = .error e → P e

theorem FailsOnly.bind (hr : r.FailsOnly P) (hf : ∀ a, r.result = .ok a → (f a).FailsOnly P) :
    (r >>= f).FailsOnly P := by
  intro e he
  rw [result_bind] at he
  cases h : r.result with
  | error e' =>
      rw [h] at he
      cases he
      exact hr e h
  | ok a =>
      rw [h] at he
      exact hf a h e he

end Report

namespace Action

variable {ε α β : Type} {a : Action ε α} {f : α → Action ε β} {w : Workspace}

/-- An action that leaves the whole workspace as it is, the texts kept in mind included. -/
def Still (a : Action ε α) : Prop := ∀ w, (a.run w).workspace = w

theorem workspace_bind (hf : ∀ x, Still (f x)) (w : Workspace) :
    ((a >>= f).run w).workspace = (a.run w).workspace := by
  cases h : (a.run w).report.result with
  | error e => exact (run_bind_of_error h).1
  | ok x => exact (run_bind_of_ok h).1.trans (hf x _)

theorem Still.bind (ha : Still a) (hf : ∀ x, Still (f x)) : Still (a >>= f) := fun w ↦
  (workspace_bind hf w).trans (ha w)

/-- An action that may be done twice: once more it changes nothing, and comes to the same. -/
structure Settled (a : Action ε α) : Prop where
  workspace : ∀ w, (a.run (a.run w).workspace).workspace = (a.run w).workspace
  result : ∀ w, (a.run (a.run w).workspace).report.result = (a.run w).report.result

theorem Still.settled (h : Still a) : Settled a := by
  constructor
  · intro w
    exact h _
  · intro w
    rw [h w]

theorem Settled.bind (ha : Settled a) (hf : ∀ x, Still (f x)) : Settled (a >>= f) := by
  constructor
  · intro w
    rw [workspace_bind hf, workspace_bind hf, ha.workspace]
  · intro w
    rw [workspace_bind hf, result_bind, result_bind, ha.result, ha.workspace]

end Action

namespace Failure

end Failure

namespace FileTree

variable {t : FileTree} {p : Path} {text : Text} {f : DiskFault}

end FileTree

namespace Change

variable {t : FileTree} {cs : List Change} {f : DiskFault}

end Change

namespace PinStore

end PinStore

namespace Document

variable {d : Document}

end Document

namespace Project

variable {root : Path} {q : Request} {speaker speaker' : Speaker} {w w' : Workspace} {t : FileTree} {c : Config}
  {s : Source} {d : Document} {e : Failure}

/-! ## Loading twice -/

end Project

end Saltern
