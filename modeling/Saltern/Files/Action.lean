import Saltern.Files.Tree
import Saltern.Log.Report

/-!
# Actions on a workspace

An action goes from one workspace to the next and leaves a report. What it changed before it failed
stays changed.
-/

namespace Saltern

/-- What the program works on: the file tree, and the files that it keeps in mind. -/
structure Workspace where
  tree : FileTree
  /-- The texts of the files that are read only once, as they were then. -/
  kept : Table Path Text

/-- The workspace of a program that has read nothing yet. -/
def Workspace.ofTree (t : FileTree) : Workspace := ⟨t, .empty⟩

/-- What an action leaves: the workspace after it, and its report. -/
structure Outcome (ε α : Type) where
  workspace : Workspace
  report : Report ε α

/-- The file tree after an action. -/
def Outcome.tree {ε α : Type} (o : Outcome ε α) : FileTree := o.workspace.tree

/-- A step from one workspace to the next. -/
def Action (ε α : Type) := Workspace → Outcome ε α

namespace Action

variable {ε δ α β : Type}

def run (a : Action ε α) (w : Workspace) : Outcome ε α := a w

/-- An action that looks at the file tree and changes nothing. -/
def look (f : FileTree → Report ε α) : Action ε α := fun w ↦ ⟨w, f w.tree⟩

/-- A single change. One that is refused changes nothing. -/
def change (wrap : δ → ε) (f : FileTree → Except δ FileTree) : Action ε Unit := fun w ↦
  match f w.tree with
  | .ok t => ⟨{ w with tree := t }, .ok ()⟩
  | .error d => ⟨w, .fail (wrap d)⟩

/-- The text of a file that is read only once: what it was the first time counts from then on,
whatever becomes of the file. -/
def readOnce (wrap : DiskFault → ε) (p : Path) : Action ε Text := fun w ↦
  match w.kept.get? p with
  | some text => ⟨w, .ok text⟩
  | none =>
    match w.tree.read p with
    | .ok text => ⟨{ w with kept := w.kept.set p text }, .ok text⟩
    | .error d => ⟨w, .fail (wrap d)⟩

/-- Goes on from a result; the messages of both parts stand in order. -/
def andThen (a : Action ε α) (f : α → Action ε β) : Action ε β := fun w ↦
  match (a.run w).report.result with
  | .error e => ⟨(a.run w).workspace, ⟨(a.run w).report.messages, .error e⟩⟩
  | .ok x =>
    let o := (f x).run (a.run w).workspace
    ⟨o.workspace, ⟨(a.run w).report.messages ++ o.report.messages, o.report.result⟩⟩

instance : Monad (Action ε) where
  pure x := look fun _ ↦ .ok x
  bind := andThen

/-- A message and nothing else. -/
def tell (speaker : Speaker) (severity : Severity) (text : Text) : Action ε Unit :=
  look fun _ ↦ .tell speaker severity text

@[simp] theorem run_look (f : FileTree → Report ε α) (w : Workspace) :
    (look f).run w = ⟨w, f w.tree⟩ := rfl

@[simp] theorem run_pure (x : α) (w : Workspace) : (pure x : Action ε α).run w = ⟨w, .ok x⟩ := rfl

@[simp] theorem run_tell (s : Speaker) (v : Severity) (m : Text) (w : Workspace) :
    (tell s v m : Action ε Unit).run w = ⟨w, .tell s v m⟩ := rfl

theorem run_bind (a : Action ε α) (f : α → Action ε β) (w : Workspace) :
    (a >>= f).run w = (andThen a f).run w := rfl

theorem run_change_ok {wrap : δ → ε} {f : FileTree → Except δ FileTree} {w : Workspace} {t : FileTree}
    (h : f w.tree = .ok t) : (change wrap f).run w = ⟨{ w with tree := t }, .ok ()⟩ := by
  simp [change, run, h]

theorem run_change_error {wrap : δ → ε} {f : FileTree → Except δ FileTree} {w : Workspace} {d : δ}
    (h : f w.tree = .error d) : (change wrap f).run w = ⟨w, .fail (wrap d)⟩ := by
  simp [change, run, h]

/-- Reading leaves the file tree as it is. -/
@[simp] theorem tree_readOnce (wrap : DiskFault → ε) (p : Path) (w : Workspace) :
    ((readOnce wrap p).run w).tree = w.tree := by
  cases hk : w.kept.get? p with
  | some text => simp [readOnce, run, Outcome.tree, hk]
  | none => cases hr : w.tree.read p <;> simp [readOnce, run, Outcome.tree, hk, hr]

end Action

end Saltern
