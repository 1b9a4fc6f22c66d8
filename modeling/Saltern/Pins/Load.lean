import Saltern.Failure
import Saltern.Log.Report
import Saltern.Pins.Store

/-!
# Loading the store of pins

A store that cannot be read is never taken for an empty one: that would lose the pins that others
wrote.
-/

namespace Saltern.PinStore

/-- The store in a file; the empty one where there is none. -/
def load (path : Path) (t : FileTree) : Report Failure PinStore :=
  if t.holds path then
    match (t.read path).toOption.bind ofText? with
    | none => .fail (.corruptPins path)
    | some s => do
      .tell .pins .debug
        ("Loaded " ++ Text.numeral s.pins.size ++ " version map entries from " ++ path.text)
      return s
  else do
    .tell .pins .debug ("No version map at " ++ path.text ++ ", starting empty.")
    return empty

end Saltern.PinStore
