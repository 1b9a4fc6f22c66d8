import Saltern.Log.Report

/-!
# Lines on a terminal
-/

namespace Saltern

/-- What a line on a terminal is: output proper, or about something that is wrong. -/
inductive Stream
  | output
  | trouble
  deriving DecidableEq, Repr

/-- A line on a terminal. -/
structure Shown where
  stream : Stream
  text : Text
  deriving DecidableEq, Repr

/-- Errors and warnings are about something that is wrong. -/
def Severity.stream : Severity → Stream
  | .error | .warn => .trouble
  | .info | .debug => .output

/-- The line that shows a message. -/
def Message.shown (m : Message) : Shown := ⟨m.severity.stream, m.line⟩

/-- The lines that show those messages that a level lets through. -/
def Message.shownAt (level : Level) (ms : List Message) : List Shown :=
  (Message.admitted level ms).map Message.shown

/-- All that goes to one stream, each line with its end. -/
def Shown.textOf (s : Stream) (ls : List Shown) : Text :=
  (ls.filter (·.stream = s)).flatMap fun l ↦ l.text ++ ['\n']

end Saltern
