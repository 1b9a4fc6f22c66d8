import Saltern.Text.Blank

/-!
# Item lines

The line grammar of packages, files, directories and services: `name`, `name=value` and `-name`.
-/

namespace Saltern

/-- An item line as it is written. A removal that also gives a value is kept as such, so that it
can be reported or printed again. -/
inductive ItemLine
  | present (target : Text) (value : Option Text)
  | absent (target : Text)
  | conflict (target value : Text)
  deriving DecidableEq, Repr

namespace ItemLine

/-- The trimmed texts on both sides of the first equals sign. -/
def cutValue (t : Text) : Option (Text × Text) :=
  (Text.cutAt '=' t).map fun (a, b) ↦ (Text.trim a, Text.trim b)

/-- An item without its minus sign. An empty value counts as none. -/
def ofKept (t : Text) : ItemLine :=
  match cutValue t with
  | some (target, value) => .present target (if value.isEmpty then none else some value)
  | none => .present t none

/-- An item after its minus sign. -/
def ofRemoved (t : Text) : ItemLine :=
  match cutValue t with
  | some (target, value) => .conflict target value
  | none => .absent t

def ofText (t : Text) : ItemLine :=
  match Text.trim t with
  | '-' :: rest => ofRemoved (Text.trim rest)
  | kept => ofKept kept

/-- The canonical spelling of an item line. -/
def text : ItemLine → Text
  | .present target none => target
  | .present target (some value) => target ++ '=' :: value
  | .absent target => '-' :: target
  | .conflict target value => '-' :: target ++ '=' :: value

end ItemLine

/-- A `key=value` line, with a key. -/
structure Setting where
  key : Text
  value : Text
  deriving DecidableEq, Repr

namespace Setting

def ofText? (t : Text) : Option Setting :=
  match ItemLine.cutValue (Text.trim t) with
  | some (key, value) => if key.isEmpty then none else some ⟨key, value⟩
  | none => none

/-- The canonical spelling of a setting. -/
def text (s : Setting) : Text := s.key ++ '=' :: s.value

end Setting

end Saltern
