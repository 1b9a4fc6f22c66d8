import Saltern.Config.Basic
import Saltern.Json.Basic

/-!
# Reading settings

Settings are read from a JSON value, member by member in a fixed order; the first that has the
wrong shape is reported. A member that is there with nothing in it counts as given, and members with
other names are passed over.
-/

namespace Saltern

/-- What can be wrong with a settings value. -/
inductive SettingsFault
  | noObject
  | emptyOrNoText (field : Text)
  | fieldNoObject (field : Text)
  | environmentsNoNames
  | enabledNoBoolean
  deriving DecidableEq, Repr

def SettingsFault.message : SettingsFault → Text
  | .noObject => "the module must export a config object."
  | .emptyOrNoText field => '"' :: field ++ "\" must be a non-empty string."
  | .fieldNoObject field => '"' :: field ++ "\" must be an object."
  | .environmentsNoNames => "\"versionMap.environments\" must be a list of names."
  | .enabledNoBoolean => "\"format.enabled\" must be a boolean."

namespace Settings

/-- A member that must be a text with something in it, reported under its full name. -/
def textField (v : Json) (name fullName : Text) : Except SettingsFault (Option Text) :=
  match v.member? name with
  | .none => .ok .none
  | some (.str (u :: r)) => .ok (some (Units.text (u :: r)))
  | some _ => .error (.emptyOrNoText fullName)

/-- A member that must be an object. -/
def objectField (v : Json) (name : Text) : Except SettingsFault (Option Json) :=
  match v.member? name with
  | .none => .ok .none
  | some (.obj ms) => .ok (some (.obj ms))
  | some _ => .error (.fieldNoObject name)

/-- A text with something in it. -/
def nonemptyText? : Json → Option Text
  | .str (u :: r) => some (Units.text (u :: r))
  | _ => .none

/-- A list of names. -/
def names? : Json → Option (List Text)
  | .arr vs => vs.mapM nonemptyText?
  | _ => .none

def ownerOfJson (v : Json) : Except SettingsFault OwnerSettings := do
  let user ← textField v "user" "owner.user"
  let group ← textField v "group" "owner.group"
  return ⟨user, group⟩

def namesOfJson (v : Json) : Except SettingsFault (Option (List Text)) :=
  match v.member? "environments" with
  | .none => .ok .none
  | some ns =>
    match names? ns with
    | some names => .ok (some names)
    | .none => .error .environmentsNoNames

def environmentsOfJson (v : Json) : Except SettingsFault EnvironmentSettings := do
  let names ← namesOfJson v
  let grain ← textField v "grain" "versionMap.grain"
  let fallback ← textField v "defaultEnvironment" "versionMap.defaultEnvironment"
  return ⟨names, grain, fallback⟩

def formatOfJson (v : Json) : Except SettingsFault FormatSettings :=
  match v.member? "enabled" with
  | .none => .ok ⟨.none⟩
  | some (.bool b) => .ok ⟨some b⟩
  | some _ => .error .enabledNoBoolean

/-- Reads a part of the settings, if it is there. -/
def part {α : Type} (read : Json → Except SettingsFault α) : Option Json → Except SettingsFault (Option α)
  | .none => .ok .none
  | some v => (read v).map some

/-- The settings that an object gives. -/
def ofObject (v : Json) : Except SettingsFault Settings := do
  let sourceFile ← textField v "sourceFile" "sourceFile"
  let manifestFile ← textField v "manifestFile" "manifestFile"
  let readmeFile ← textField v "readmeFile" "readmeFile"
  let filesDir ← textField v "filesDir" "filesDir"
  let mapsDir ← textField v "mapsDir" "mapsDir"
  let cronUser ← textField v "cronUser" "cronUser"
  let owner ← part ownerOfJson (← objectField v "owner")
  let environments ← part environmentsOfJson (← objectField v "versionMap")
  let format ← part formatOfJson (← objectField v "format")
  return ⟨sourceFile, manifestFile, readmeFile, filesDir, mapsDir, cronUser, owner, environments, format⟩

/-- The settings that a value gives. -/
def ofJson : Json → Except SettingsFault Settings
  | .obj ms => ofObject (.obj ms)
  | _ => .error .noObject

end Settings

end Saltern
