import Saltern.Brinefile.Fault
import Saltern.Brinefile.Line
import Saltern.Text.LineBreak

/-!
# Sections of a Brinefile

A Brinefile is cut at its marker lines. The lines before the first marker are its preamble.
-/

namespace Saltern

/-- A section: its keyword, the number of its marker line, and every line up to the next marker. -/
structure Section where
  keyword : Keyword
  line : Nat
  lines : List Line
  deriving DecidableEq, Repr

/-- The lines of a section that are neither blank nor comments. -/
def Section.entries (s : Section) : List Line := s.lines.filter (·.kind = .entry)

/-- A Brinefile cut into lines and sections. -/
structure Brinefile where
  preamble : List Line
  sections : List Section
  lines : List Line
  deriving DecidableEq, Repr

namespace Brinefile

/-- The lines before the first marker, and the sections from there on. -/
def gather : List Line → Except Fault (List Line × List Section)
  | [] => .ok ([], [])
  | l :: rest =>
    if l.kind = .marker then
      match Keyword.ofName? (Keyword.spelledBy l.content) with
      | none => .error (.unknownSection (Keyword.spelledBy l.content) l.number)
      | some keyword =>
        match gather rest with
        | .error e => .error e
        | .ok (body, sections) => .ok ([], ⟨keyword, l.number, body⟩ :: sections)
    else
      match gather rest with
      | .error e => .error e
      | .ok (body, sections) => .ok (l :: body, sections)

/-- The numbered lines of a text. -/
def linesOf (t : Text) : List Line := Line.numberedFrom 0 (Text.lines t)

/-- Cuts a text into sections, or blames the first marker that names none. -/
def ofText (t : Text) : Except Fault Brinefile :=
  match gather (linesOf t) with
  | .error e => .error e
  | .ok (preamble, sections) => .ok ⟨preamble, sections, linesOf t⟩

end Brinefile

end Saltern
