import Saltern.Text.Basic

/-!
# Blank characters

The characters that count as blank when a text is trimmed or cut into words, and the smaller set
at which a line of text ends.
-/

namespace Saltern.Text

/-- Tab, the line and page breaks, and every space separator, with the byte order mark. -/
def blanks : List Char :=
  ['\t', '\n', '\x0b', '\x0c', '\r', ' ', '\u00a0', '\u1680', '\u2000', '\u2001', '\u2002', '\u2003',
    '\u2004', '\u2005', '\u2006', '\u2007', '\u2008', '\u2009', '\u200a', '\u2028', '\u2029', '\u202f',
    '\u205f', '\u3000', '\ufeff']

/-- Whether a character is blank. -/
def isBlank (c : Char) : Bool := blanks.contains c

/-- The four characters that no single line of text holds. -/
def isLineEnd (c : Char) : Bool := ['\n', '\r', '\u2028', '\u2029'].contains c

/-- A space or a tab. -/
def isSpaceOrTab (c : Char) : Bool := c = ' ' || c = '\t'

/-- A text without the blanks at its edges. -/
def trim (t : Text) : Text := dropEndWhile isBlank (t.dropWhile isBlank)

/-- A text without spaces and tabs at its end. -/
def trimSpacesEnd (t : Text) : Text := dropEndWhile isSpaceOrTab t

/-- The first word of a text and, past the blanks behind it, the rest. -/
def firstWord (t : Text) : Option (Text × Text) :=
  let word := t.takeWhile (!isBlank ·)
  let rest := t.dropWhile (!isBlank ·)
  if word.isEmpty || rest.isEmpty then none else some (word, rest.dropWhile isBlank)

example : blanks.length = 25 := rfl

/-- Every blank of the ASCII range is blank here. -/
theorem isBlank_of_isWhitespace {c : Char} (h : c.isWhitespace = true) : isBlank c = true := by
  simp only [Char.isWhitespace, Bool.or_eq_true, decide_eq_true_eq] at h
  rcases h with ((rfl | rfl) | rfl) | rfl <;> rfl

theorem isBlank_of_isLineEnd {c : Char} (h : isLineEnd c = true) : isBlank c = true := by
  simp only [isLineEnd, List.contains_eq_mem, List.mem_cons, List.not_mem_nil, or_false,
    decide_eq_true_eq] at h
  rcases h with rfl | rfl | rfl | rfl <;> rfl

theorem isBlank_of_isSpaceOrTab {c : Char} (h : isSpaceOrTab c = true) : isBlank c = true := by
  simp only [isSpaceOrTab, Bool.or_eq_true, decide_eq_true_eq] at h
  rcases h with rfl | rfl <;> rfl

end Saltern.Text
