import Saltern.Text.Basic

/-!
# Severities and levels
-/

namespace Saltern

/-- How much a message matters. -/
inductive Severity
  | error
  | warn
  | info
  | debug
  deriving DecidableEq, Repr

namespace Severity

def all : List Severity := [.error, .warn, .info, .debug]

def rank : Severity → Nat
  | .error => 1
  | .warn => 2
  | .info => 3
  | .debug => 4

def name : Severity → Text
  | .error => "error"
  | .warn => "warn"
  | .info => "info"
  | .debug => "debug"

def ofName? (t : Text) : Option Severity := all.find? (·.name = t)

/-- The terminal's number for the colour of a severity. -/
def colour : Severity → Text
  | .error => "31"
  | .warn => "33"
  | .info => "36"
  | .debug => "2"

end Severity

/-- How much a logger lets through: nothing, or everything down to a severity. A level that is no
known word lets nothing through. -/
inductive Level
  | silent
  | upTo (s : Severity)
  | unknown (word : Text)
  deriving DecidableEq, Repr

namespace Level

def name : Level → Text
  | .silent => "silent"
  | .upTo s => s.name
  | .unknown w => w

/-- The level that a word names, if it is one of the five. -/
def ofName? (t : Text) : Option Level :=
  if t = "silent".toList then some .silent else (Severity.ofName? t).map .upTo

def ofWord (t : Text) : Level := (ofName? t).getD (.unknown t)

/-- Whether a message of a severity gets through. -/
def admits : Level → Severity → Bool
  | .upTo s, t => t.rank ≤ s.rank
  | _, _ => false

end Level

end Saltern
