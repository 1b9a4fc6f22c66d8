import Saltern.Text.Basic

/-!
# Line breaks

A line ends at a line feed, with a carriage return before it or without; a carriage return on its
own belongs to its line.
-/

namespace Saltern

namespace Text

/-- The lines of a text. There is always one. -/
def lines : Text → List Text
  | [] => [[]]
  | '\r' :: '\n' :: r => [] :: lines r
  | '\n' :: r => [] :: lines r
  | c :: r => consHead c (lines r)

/-- The number of line feeds with a carriage return before them. -/
def crlfCount : Text → Nat
  | [] => 0
  | '\r' :: '\n' :: r => crlfCount r + 1
  | _ :: r => crlfCount r

/-- The number of line feeds without a carriage return before them. -/
def loneLfCount : Text → Nat
  | [] => 0
  | '\r' :: '\n' :: r => loneLfCount r
  | '\n' :: r => loneLfCount r + 1
  | _ :: r => loneLfCount r

theorem lines_ne_nil (t : Text) : lines t ≠ [] := by
  fun_induction lines t with
  | case1 => simp
  | case2 r _ => simp
  | case3 r _ => simp
  | case4 c r _ _ ih =>
    cases h : lines r with
    | nil => exact absurd h ih
    | cons p ps => simp [consHead]

end Text

/-- The two ways to end a line. -/
inductive LineEnding
  | lf
  | crlf
  deriving DecidableEq, Repr

namespace LineEnding

def text : LineEnding → Text
  | .lf => ['\n']
  | .crlf => ['\r', '\n']

/-- The ending that most lines of a text have; the plain line feed when neither prevails. -/
def prevailing (t : Text) : LineEnding :=
  if Text.loneLfCount t < Text.crlfCount t then .crlf else .lf

end LineEnding

end Saltern
