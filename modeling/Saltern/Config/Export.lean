import Saltern.Config.Reading
import Saltern.Json.Printer
import Saltern.Json.Reader

/-!
# Configuration files

A configuration file exports its settings. Understood are files whose values are written as JSON:
one value exported as a whole, or several exported by name, which make one object.
-/

namespace Saltern.Export

/-- How a configuration file exports. -/
inductive Style
  | whole
  | assigned
  | named
  deriving DecidableEq, Repr

/-- The words before a value that is exported as a whole. -/
def Style.opening : Style → List Text
  | .whole => ["export", "default"]
  | .assigned => ["module.exports", "="]
  | .named => []

/-- The rest of a text behind some words, whatever blanks stand before them. -/
def behind? : List Text → Text → Option Text
  | [], t => some t
  | w :: ws, t => (Json.expect? w (Json.skipBlanks t)).bind (behind? ws)

/-- The rest of a text behind a semicolon, if one comes first. -/
def behindEnd (t : Text) : Text :=
  match Json.skipBlanks t with
  | ';' :: r => r
  | t => t

/-- The value that a text exports as a whole. -/
def whole? (s : Style) (t : Text) : Option Json := do
  let (v, rest) ← Json.readFirst (← behind? s.opening t)
  if (Json.skipBlanks (behindEnd rest)).isEmpty then some v else none

/-- A value exported by name, and the rest. -/
def member? (t : Text) : Option ((Units × Json) × Text) := do
  let t := Json.skipBlanks (← behind? ["export", "const"] t)
  let name : Text := t.takeWhile fun c ↦ !Json.isBlank c && c != '='
  let (v, rest) ← Json.readFirst (← behind? ["="] (t.drop name.length))
  return ((name.units, v), behindEnd rest)

/-- The values that a text exports by name, at most as many as there is fuel. -/
def members? : (fuel : Nat) → Text → Option (List (Units × Json))
  | 0, _ => none
  | fuel + 1, t =>
    if (Json.skipBlanks t).isEmpty then some []
    else
      match member? t with
      | none => none
      | some (m, rest) => (members? fuel rest).map (m :: ·)

/-- What the text of a configuration file exports. -/
def ofText? (t : Text) : Option Json :=
  (whole? .whole t).orElse fun _ ↦
    (whole? .assigned t).orElse fun _ ↦ (members? (t.length + 1) t).map .obj

def memberText (m : Units × Json) : Text := "export const " ++ m.1.text ++ " = " ++ m.2.text ++ [';', '\n']

def wholeText (s : Style) (v : Json) : Text :=
  Text.joinWith [' '] s.opening ++ ' ' :: v.text ++ [';', '\n']

/-- The text of a configuration file that exports a value. Only an object can be exported by
name. -/
def text : Style → Json → Text
  | .named, .obj ms => ms.flatMap memberText
  | .assigned, v => wholeText .assigned v
  | _, v => wholeText .whole v

end Saltern.Export

namespace Saltern.Config

/-- The configuration that the text of a configuration file comes to. -/
def ofText (t : Text) : Except SettingsFault Config :=
  match Export.ofText? t with
  | none => .error .noObject
  | some v => (Settings.ofJson v).map Settings.resolve

end Saltern.Config
