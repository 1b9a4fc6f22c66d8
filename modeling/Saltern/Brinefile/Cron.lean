import Saltern.Text.Blank
import Saltern.Text.LowerCase

/-!
# Crontab lines

Five schedule fields and a command, or a named schedule such as `@daily` and a command.
-/

namespace Saltern

/-- When a job runs. -/
inductive Schedule
  | fields (minute hour dayOfMonth month dayOfWeek : Text)
  | special (name : Text)
  deriving DecidableEq, Repr

/-- A crontab line; the command keeps its inner spacing. -/
structure CronLine where
  schedule : Schedule
  command : Text
  deriving DecidableEq, Repr

namespace CronLine

/-- The named schedules. -/
def specials : List Text :=
  ["@reboot", "@yearly", "@annually", "@monthly", "@weekly", "@daily", "@midnight", "@hourly"]

/-- A command: a rest of a line, which must not run over a line end. -/
def command? (t : Text) : Option Text := if t.any Text.isLineEnd then none else some t

/-- A named schedule in any letter case, and its command. -/
def ofSpecial? (t : Text) : Option CronLine := do
  let (word, rest) ← Text.firstWord t
  let name := Text.asciiLower word
  if specials.contains name then return ⟨.special name, ← command? rest⟩ else none

/-- Five fields and their command. -/
def ofFields? (t : Text) : Option CronLine := do
  let (minute, t₁) ← Text.firstWord t
  let (hour, t₂) ← Text.firstWord t₁
  let (dayOfMonth, t₃) ← Text.firstWord t₂
  let (month, t₄) ← Text.firstWord t₃
  let (dayOfWeek, rest) ← Text.firstWord t₄
  return ⟨.fields minute hour dayOfMonth month dayOfWeek, ← command? rest⟩

def ofText? (t : Text) : Option CronLine :=
  let t := Text.trim t
  if t.head? = some '@' then ofSpecial? t else ofFields? t

end CronLine

end Saltern
