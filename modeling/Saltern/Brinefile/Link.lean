import Saltern.Text.Blank

/-!
# Symlink lines

The line grammar `link->target`, with a minus sign in front for a removal.
-/

namespace Saltern

/-- Whether a thing is to be there or to be gone. -/
inductive Presence
  | present
  | absent
  deriving DecidableEq, Repr

/-- A symlink line: the path of the link and what it points to. -/
structure LinkLine where
  presence : Presence
  linkPath : Text
  targetPath : Text
  deriving DecidableEq, Repr

namespace LinkLine

/-- The pieces between the arrows of a text. -/
def splitArrows : Text → List Text
  | [] => [[]]
  | '-' :: '>' :: r => [] :: splitArrows r
  | c :: r => Text.consHead c (splitArrows r)

/-- Both sides of the only arrow, if there is text on each. -/
def ofSides? (presence : Presence) (t : Text) : Option LinkLine :=
  match splitArrows t with
  | [a, b] =>
    if (Text.trim a).isEmpty || (Text.trim b).isEmpty then none
    else some ⟨presence, Text.trim a, Text.trim b⟩
  | _ => none

/-- Reads a symlink line. An arrow at the very start is no removal sign. -/
def ofText? (t : Text) : Option LinkLine :=
  match Text.trim t with
  | '-' :: '>' :: rest => ofSides? .present ('-' :: '>' :: rest)
  | '-' :: rest => ofSides? .absent rest
  | kept => ofSides? .present kept

/-- The canonical spelling of a symlink line. -/
def text (l : LinkLine) : Text :=
  (if l.presence = .absent then ['-'] else []) ++ l.linkPath ++ '-' :: '>' :: l.targetPath

end LinkLine

end Saltern
