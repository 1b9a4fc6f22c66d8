import Saltern.Text.Blank

/-!
# Lines of a Brinefile
-/

namespace Saltern

/-- What a line is taken for. -/
inductive LineKind
  | blank
  | comment
  | marker
  | entry
  deriving DecidableEq, Repr

/-- A percent sign makes a marker only in the first column; further in it is ordinary content. -/
def LineKind.ofRaw (raw : Text) : LineKind :=
  let content := Text.trim raw
  if content.isEmpty then .blank
  else if raw.head? = some '%' then .marker
  else if content.head? = some '#' then .comment
  else .entry

/-- A line and its place in the text, counted from zero. -/
structure Line where
  index : Nat
  raw : Text
  deriving DecidableEq, Repr

namespace Line

/-- The line's place counted from one. -/
def number (l : Line) : Nat := l.index + 1

/-- The line without the blanks at its edges. -/
def content (l : Line) : Text := Text.trim l.raw

def kind (l : Line) : LineKind := .ofRaw l.raw

/-- Raw lines numbered from a given place on. -/
def numberedFrom (start : Nat) : List Text → List Line
  | [] => []
  | raw :: rest => ⟨start, raw⟩ :: numberedFrom (start + 1) rest

@[simp] theorem map_raw_numberedFrom (start : Nat) (raws : List Text) :
    (numberedFrom start raws).map raw = raws := by
  induction raws generalizing start with
  | nil => rfl
  | cons r rs ih => simp [numberedFrom, ih]

end Line

end Saltern
