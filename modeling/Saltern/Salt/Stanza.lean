import Saltern.Text.Basic

/-!
# Stanzas

One state of a manifest: its id, the state function, and the function's parameters.
-/

namespace Saltern

/-- A state as it is written. Parameter values are YAML scalars already. -/
structure Stanza where
  id : Text
  function : Text
  params : List (Text × Text)
  deriving DecidableEq, Repr

namespace Stanza

def paramLine (p : Text × Text) : Text := "    - " ++ p.1 ++ ": " ++ p.2

def text (s : Stanza) : Text :=
  Text.joinWith ['\n']
    ((s.id ++ [':']) :: ("  " ++ s.function ++ [':']) :: s.params.map paramLine)

end Stanza

end Saltern
