import Saltern.Json.Printer
import Saltern.Json.Reader
import Saltern.Pins.Basic

/-!
# The store of pins

All documents of a project keep their pins in one file. Pins of other documents stay, pins declared
anew are overwritten. Overrides are written by hand: they are read, kept and written back.
-/

namespace Saltern

/-- The pins of a project, and what some environments have instead. -/
structure PinStore where
  pins : Pins
  overrides : Overrides

namespace PinStore

def empty : PinStore := ⟨.empty, .empty⟩

/-- The name of the store's file. -/
def fileName : Text := "versions.json"

/-- The overrides of one environment. -/
def environmentOfJson? (m : Units × Json) : Option (Units × Pins) :=
  m.2.stringMembers?.map fun es ↦ (m.1, Table.ofList es)

/-- The overrides an object spells, environment by environment. -/
def overridesOfJson? : Json → Option Overrides
  | .obj ms => (ms.mapM environmentOfJson?).map Table.ofList
  | _ => none

/-- The store that a value spells: an object of version one, with an object of strings as its entries
and, if it has overrides, an object of such objects. -/
def ofJson? (v : Json) : Option PinStore := do
  let .num version ← v.member? "version" | none
  if !version.isOne then none
  else
    let entries ← (← v.member? "entries").stringMembers?
    let overrides ←
      match v.member? "overrides" with
      | none => some .empty
      | some o => overridesOfJson? o
    return ⟨.ofList entries, overrides⟩

def ofText? (t : Text) : Option PinStore := (Json.ofText? t).bind ofJson?

/-- The store with more pins written to it. -/
def merge (s : PinStore) (pins : List (Units × Units)) : PinStore := { s with pins := s.pins.setAll pins }

/-- Pins as an object, sorted by key. -/
def pinsJson (pins : Pins) : Json := .ofStrings pins.sorted.entries

/-- Environments that override something, as an object, both levels sorted by key. -/
def overridesJson (overrides : List (Units × Pins)) : Json :=
  .obj ((Json.arranged overrides).map fun e ↦ (e.1, pinsJson e.2))

/-- The environments of a store that override something, sorted by name. -/
def overriding (s : PinStore) : List (Units × Pins) :=
  (s.overrides.filter fun e ↦ !e.2.isEmpty).sorted.entries

def toJson (s : PinStore) : Json :=
  .obj ((Text.units "version", .ofNat 1) :: (Text.units "entries", pinsJson s.pins) ::
    if s.overriding.isEmpty then [] else [(Text.units "overrides", overridesJson s.overriding)])

/-- The text of the store's file. -/
def text (s : PinStore) : Text := s.toJson.text ++ ['\n']

end PinStore

end Saltern
