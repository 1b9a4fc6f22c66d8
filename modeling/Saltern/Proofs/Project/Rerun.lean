import Saltern.Proofs.Pins.Canonical
import Saltern.Proofs.Project.Pinning
import Saltern.Proofs.Project.Rewriting

/-!
# A project run twice

A run leaves its configuration and its source as they were, and writes a store that comes back with the
text it has. So the same run once more comes to the same plan, and its changes are all made already.
-/

namespace Saltern

namespace PinStore

variable {s s' : PinStore}

end PinStore

namespace Action

variable {ε δ α β : Type} {a : Action ε α} {f : α → Action ε β} {wrap : DiskFault → ε} {p : Path}
  {w : Workspace} {text : Text}

/-- An action that keeps no more texts in mind than there were. -/
def KeepsNothing (a : Action ε α) : Prop := ∀ w, (a.run w).workspace.kept = w.kept

theorem KeepsNothing.bind (ha : KeepsNothing a) (hf : ∀ x, KeepsNothing (f x)) : KeepsNothing (a >>= f) := by
  intro w
  cases h : (a.run w).report.result with
  | error e => rw [(run_bind_of_error h).1, ha w]
  | ok x => rw [(run_bind_of_ok h).1, hf x, ha w]

theorem KeepsNothing.forM {γ : Type} {f : γ → Action ε Unit} (h : ∀ x, KeepsNothing (f x)) (xs : List γ) :
    KeepsNothing (xs.forM f) := by
  induction xs with
  | nil => exact fun _ ↦ rfl
  | cons x xs ih => exact (h x).bind fun _ ↦ ih

end Action

namespace Plan

variable {p : Plan} {path : Path}

end Plan

namespace Project

variable {root : Path} {q : Request} {speaker : Speaker} {w w' : Workspace} {t : FileTree}
  {found : Option Path} {c : Config} {s : Source} {r : Compiled} {text : Text} {d : Document} {p : Plan} {path : Path}

/-! ## The configuration again -/

end Project

end Saltern
