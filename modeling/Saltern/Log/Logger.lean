import Saltern.Log.Level

/-!
# Loggers

Loggers form a tree. A logger without a level of its own has its parent's, and its label is its
parent's with its own behind.
-/

namespace Saltern

/-- A logger: its parent's place in the tree, its own level if one was set, and its whole label. -/
structure Logger where
  parent : Option Nat
  level : Option Level
  label : Text
  deriving DecidableEq, Repr

/-- A tree of loggers in the order in which they were made. -/
structure Loggers where
  list : List Logger
  coloured : Bool
  deriving DecidableEq, Repr

/-- A line on its way out, and by which severity it goes. -/
structure LogLine where
  severity : Severity
  text : Text
  deriving DecidableEq, Repr

namespace Loggers

/-- A tree with a root only. -/
def root (level : Option Level) (label : Text) (coloured : Bool) : Loggers :=
  ⟨[⟨none, some (level.getD (.upTo .info)), label⟩], coloured⟩

/-- The level that counts for a logger, looking at most `depth` parents up. -/
def levelWithin (ls : List Logger) : (depth : Nat) → (i : Nat) → Level
  | 0, _ => .upTo .info
  | depth + 1, i =>
    match ls[i]? with
    | none => .upTo .info
    | some l =>
      match l.level, l.parent with
      | some level, _ => level
      | none, some p => levelWithin ls depth p
      | none, none => .upTo .info

/-- The level that counts for a logger: its own, or that of the nearest above it that has one. -/
def level (t : Loggers) (i : Nat) : Level := levelWithin t.list (i + 1) i

/-- The levels that count, logger by logger. -/
def levels (t : Loggers) : List Level := (List.range t.list.length).map t.level

def label (t : Loggers) (i : Nat) : Text := (t.list[i]?.map (·.label)).getD []

/-- A tree with one more logger below a given one. -/
def child (t : Loggers) (i : Nat) (label : Text) : Loggers :=
  { t with list := t.list ++ [⟨some i, none, t.label i ++ label⟩] }

/-- A tree with the level of a logger set. -/
def setLevel (t : Loggers) (i : Nat) (level : Level) : Loggers :=
  { t with list := t.list.modify i fun l ↦ { l with level := some level } }

/-- A text in a colour of the terminal. -/
def paint (colour t : Text) : Text := "\x1b[" ++ colour ++ 'm' :: t ++ "\x1b[0m"

/-- A message behind its label. -/
def decorate (coloured : Bool) (label : Text) (s : Severity) (message : Text) : Text :=
  let body := if coloured then paint s.colour message else message
  if label.isEmpty then body
  else (if coloured then paint "35" label else label) ++ ' ' :: body

/-- What a message to a logger brings out. -/
def log (t : Loggers) (i : Nat) (s : Severity) (message : Text) : Option LogLine :=
  if (t.level i).admits s then some ⟨s, decorate t.coloured (t.label i) s message⟩ else none

end Loggers

end Saltern
