import Saltern.Brinefile.Section

/-!
# Canonical layout

A Brinefile printed again: markers in lower case with one empty line before each, entries without
indentation and in their canonical spelling, comments where they were, runs of blank lines as one.
Readme sections keep their lines. Nothing is checked and nothing is mended.
-/

namespace Saltern

namespace Line

/-- The content of a line; the line as it stands, up to the spaces at its end, where the content
would be taken for a marker. -/
def unindented (l : Line) : Text :=
  if l.content.head? = some '%' then Text.trimSpacesEnd l.raw else l.content

end Line

namespace Keyword

/-- The sections whose entries are items. -/
def holdsItems (k : Keyword) : Bool :=
  k = .packages || k = .files || k = .directories || k = .services

/-- The canonical spelling of an entry; one that does not fit its section stays as it is. -/
def respell (k : Keyword) (entry : Text) : Text :=
  if k.holdsItems then (ItemLine.ofText entry).text
  else if k = .symlinks then ((LinkLine.ofText? entry).map LinkLine.text).getD entry
  else if k = .sysctl then ((Setting.ofText? entry).map Setting.text).getD entry
  else entry

end Keyword

namespace Section

/-- A line of a section in canonical spelling. -/
def printLine (k : Keyword) (l : Line) : Text :=
  match l.kind with
  | .entry => if l.content.head? = some '%' then l.unindented else k.respell l.content
  | _ => l.content

/-- The printed lines, with one empty line for a run of blank lines. A blank line counts only when
the last printed line is not empty. -/
def squeeze (k : Keyword) (afterText : Bool) : List Line → List Text
  | [] => []
  | l :: rest =>
    if l.kind = .blank then
      if afterText then [] :: squeeze k false rest else squeeze k false rest
    else printLine k l :: squeeze k (!(printLine k l).isEmpty) rest

/-- The printed lines of a section after its marker. -/
def printBody (s : Section) : List Text :=
  Text.trimEmptyEdges
    (if s.keyword = .readme then s.lines.map fun l ↦ Text.trimSpacesEnd l.raw
     else squeeze s.keyword false s.lines)

/-- The printed lines of a section, its marker first. -/
def print (s : Section) : List Text := ('%' :: s.keyword.name) :: s.printBody

end Section

namespace Brinefile

/-- The printed lines before the first marker. -/
def printPreamble (b : Brinefile) : List Text :=
  Text.trimEmptyEdges (b.preamble.map fun l ↦ if l.kind = .blank then [] else l.unindented)

/-- Sections behind some printed lines, with an empty line before each unless nothing precedes. -/
def printSections (before : List Text) : List Section → List Text
  | [] => before
  | s :: rest =>
    printSections (before ++ (if before.isEmpty then [] else [[]]) ++ s.print) rest

/-- The lines of a Brinefile in canonical layout. -/
def printLines (b : Brinefile) : List Text := printSections b.printPreamble b.sections

end Brinefile

/-- Lines joined to a text, each with its ending; no lines make the empty text. -/
def LineEnding.joinLines (e : LineEnding) (ls : List Text) : Text :=
  if ls.isEmpty then [] else Text.joinWith e.text ls ++ e.text

/-- A text in canonical layout. -/
structure Formatted where
  text : Text
  /-- Whether the text differs from the one it was made from. -/
  changed : Bool
  deriving DecidableEq, Repr

/-- A Brinefile's text in canonical layout, with the line ending that prevails in it or, if that is
not wanted, with line feeds. Only an unknown marker stands in the way. -/
def Brinefile.format (preserveNewlines : Bool) (t : Text) : Except Fault Formatted :=
  match Brinefile.ofText t with
  | .error e => .error e
  | .ok b =>
    let ending := if preserveNewlines then LineEnding.prevailing t else .lf
    let text := ending.joinLines b.printLines
    .ok ⟨text, text != t⟩

end Saltern
