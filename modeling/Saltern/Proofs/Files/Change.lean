import Mathlib.Data.List.Basic
import Saltern.Files.Action
import Saltern.Proofs.Table

/-!
# Changes to a file tree

Directories are made and files are written one after the other, up to the first change that is
refused. Nothing is taken away on the way, so the tree is the same afterwards exactly when every
directory was there, every file written was a file already, and each is left with its own text.
-/

namespace Saltern

/-- A single change: a directory made, or a file written. -/
inductive Change
  | directory (p : Path)
  | file (p : Path) (text : Text)

namespace FileTree

variable {t t' u : FileTree} {p q : Path} {text : Text}

/-- The paths of a tree in their order. -/
def keys (t : FileTree) : List Path := t.nodes.keys

theorem makeDirs_of_holds (h : t.holds p = true) : t.makeDirs p = .ok t := if_pos h

theorem write_spec (h : t.write p text = .ok t') :
    ∃ u, t.makeDirs p.parent = .ok u ∧ u.node? p ≠ some .dir ∧ t' = ⟨u.nodes.set p (.file text)⟩ := by
  unfold write at h
  split at h
  · cases h
  · next u hu =>
    split at h
    · cases h
    · split at h
      · cases h
      · next hdir =>
        cases h
        exact ⟨u, hu, hdir, rfl⟩

end FileTree

namespace Change

variable {t t' u : FileTree} {c : Change} {cs : List Change} {p : Path} {text : Text}

/-- The tree after a change, or the reason why it is refused. -/
def apply (t : FileTree) : Change → Except DiskFault FileTree
  | .directory p => t.makeDirs p
  | .file p text => t.write p text

/-- The tree after several changes, up to the first that is refused. -/
def after (t : FileTree) : List Change → FileTree
  | [] => t
  | c :: cs =>
    match apply t c with
    | .error _ => t
    | .ok t' => after t' cs

/-- The changes that are made before the first one that is refused. -/
def made (t : FileTree) : List Change → List Change
  | [] => []
  | c :: cs =>
    match apply t c with
    | .error _ => []
    | .ok t' => c :: made t' cs

/-- Why the first refused change is refused, if one is. -/
def refusal? (t : FileTree) : List Change → Option DiskFault
  | [] => none
  | c :: cs =>
    match apply t c with
    | .error e => some e
    | .ok t' => refusal? t' cs

/-- Whether a change finds its place: a directory that is there, or a file in a directory. -/
def Fits (t : FileTree) : Change → Prop
  | .directory p => t.holds p = true
  | .file p _ => t.holds p.parent = true ∧ t.isFile p = true

/-- A tree with a change put in its place. -/
def put (t : FileTree) : Change → FileTree
  | .directory _ => t
  | .file p text => ⟨t.nodes.set p (.file text)⟩

/-- The text that some changes leave at a path, if they write there. -/
def textAt (p : Path) : List Change → Option Text
  | [] => none
  | .directory _ :: cs => textAt p cs
  | .file q text :: cs => (textAt p cs).or (if q = p then some text else none)

theorem after_append (t : FileTree) (cs ds : List Change) :
    after t (cs ++ ds) = if (refusal? t cs).isSome then after t cs else after (after t cs) ds := by
  induction cs generalizing t with
  | nil => rfl
  | cons c cs ih =>
      cases h : apply t c with
      | error e => simp [after, refusal?, h]
      | ok t' => simpa [after, refusal?, h] using ih t'

theorem refusal?_append (t : FileTree) (cs ds : List Change) :
    refusal? t (cs ++ ds) = (refusal? t cs).or (refusal? (after t cs) ds) := by
  induction cs generalizing t with
  | nil => rfl
  | cons c cs ih =>
      cases h : apply t c with
      | error e => simp [after, refusal?, h]
      | ok t' => simpa [after, refusal?, h] using ih t'

end Change

end Saltern
