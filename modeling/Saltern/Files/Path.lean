import Saltern.Text.Basic

/-!
# Paths

An absolute path is the list of its parts. A text is resolved against a path part by part: empty
parts and single dots stay where they are, double dots go up, and a text that starts with a slash
starts at the top.
-/

namespace Saltern

/-- Whether a text may be a part of a path. -/
def IsPart (t : Text) : Prop := t ≠ [] ∧ '/' ∉ t ∧ t ≠ ['.'] ∧ t ≠ ['.', '.']

instance (t : Text) : Decidable (IsPart t) := inferInstanceAs (Decidable (_ ∧ _))

/-- An absolute path. -/
structure Path where
  parts : List Text
  proper : ∀ t ∈ parts, IsPart t
  deriving DecidableEq

namespace Path

/-- The top directory. -/
def top : Path := ⟨[], nofun⟩

def text (p : Path) : Text := '/' :: Text.joinWith ['/'] p.parts

/-- The directory a path lies in; the top lies in itself. -/
def parent (p : Path) : Path := ⟨p.parts.dropLast, fun t h ↦ p.proper t (List.dropLast_subset _ h)⟩

/-- The last part of a path. -/
def name (p : Path) : Text := p.parts.getLast?.getD []

/-- The ending of a name: from its last dot on, unless the name starts there. -/
def ending (p : Path) : Text :=
  let stem := (p.name.reverse.dropWhile (· != '.')).drop 1
  if stem.isEmpty then [] else p.name.drop stem.length

/-- A part below a path. -/
def child (p : Path) (t : Text) (h : IsPart t) : Path where
  parts := p.parts ++ [t]
  proper := fun u hu ↦ (List.mem_append.mp hu).elim (p.proper u) fun hu ↦ by
    rw [List.mem_singleton.mp hu]; exact h

/-- One step from a path. -/
def step (p : Path) (t : Text) : Path :=
  if t = ['.', '.'] then p.parent else if h : IsPart t then p.child t h else p

/-- Where a text leads from a path. -/
def resolve (base : Path) (t : Text) : Path :=
  (Text.splitOn '/' t).foldl step (if t.head? = some '/' then top else base)

def ofText (t : Text) : Path := top.resolve t

/-- Two lists without what they have in common at the front. -/
def dropCommon : List Text → List Text → List Text × List Text
  | a :: as, b :: bs => if a = b then dropCommon as bs else (a :: as, b :: bs)
  | as, bs => (as, bs)

/-- A text with forward slashes for backslashes. -/
def withSlashes (t : Text) : Text := t.map fun c ↦ if c = '\\' then '/' else c

/-- The way from a directory to a path, with forward slashes only. -/
def relative (base target : Path) : Text :=
  let (up, down) := dropCommon base.parts target.parts
  withSlashes (Text.joinWith ['/'] (up.map (fun _ ↦ ['.', '.']) ++ down))

/-- Whether a path is a directory or lies below it, told by its text: the slash behind the
directory's text keeps out siblings whose names merely go on. -/
def contains (dir p : Path) : Bool :=
  Text.startsWith p.text (if dir.parts.isEmpty then dir.text else dir.text ++ ['/']) ||
    p.text = dir.text

/-- The directories on the way to a path from the top, the path last; `depth` of them. -/
def lineageTo : (depth : Nat) → Path → List Path
  | 0, _ => []
  | n + 1, p => lineageTo n p.parent ++ [p]

/-- The directories on the way to a path, the path last and the top left out. -/
def lineage (p : Path) : List Path := lineageTo p.parts.length p

end Path

/-- A path that leaves the directory it should stay in. -/
structure Outside where
  root : Path
  target : Path
  deriving DecidableEq

def Outside.message (o : Outside) : Text :=
  "Attempted to resolve path outside project root: root=\"" ++ o.root.text ++ "\", target=\"" ++
    o.target.text ++ "\""

/-- Where a text leads from a directory, if that stays in the directory. -/
def Path.resolveWithin (root : Path) (t : Text) : Except Outside Path :=
  let target := root.resolve t
  if root.contains target then .ok target else .error ⟨root, target⟩

end Saltern
