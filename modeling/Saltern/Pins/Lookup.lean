import Saltern.Config.Basic
import Saltern.Json.Printer
import Saltern.Pins.Basic

/-!
# The lookup of pins

The manifest looks a version up in a map that is chosen by the machine's environment. Every
environment has the common pins, with its own overrides layered on top.
-/

namespace Saltern

/-- The pins of one environment, sorted by key. -/
def Pins.inEnvironment (pins : Pins) (overrides : Overrides) (env : Text) : Pins :=
  (pins.setAll ((overrides.get? env.units).elim [] (·.entries))).sorted

namespace Lookup

def pinLine (p : Units × Units) : Text := "        " ++ Json.quote p.1 ++ ": " ++ Json.quote p.2 ++ [',']

def environmentEnd : Text := "    \x7d,"

/-- The lines of one environment. -/
def environmentLines (pins : Pins) (overrides : Overrides) (env : Text) : List Text :=
  ("    " ++ Json.quote env.units ++ ": \x7b") ::
    (pins.inEnvironment overrides env).entries.map pinLine ++ [environmentEnd]

def opening : Text := "\x7b% set versions = salt[\"grains.filter_by\"](\x7b"

/-- The lines after the last environment: which grain chooses, and what holds without it. -/
def closing (e : Environments) : List Text :=
  ["\x7d,", "grain=" ++ Json.quote e.grain.units ++ [','], "default=" ++ Json.quote e.fallback.units ++ [')'],
    "%\x7d"]

/-- The lines of the lookup file. -/
def lines (pins : Pins) (e : Environments) (overrides : Overrides) : List Text :=
  opening :: e.names.flatMap (environmentLines pins overrides) ++ closing e

/-- The text of the lookup file. -/
def text (pins : Pins) (e : Environments) (overrides : Overrides) : Text :=
  Text.joinWith ['\n'] (lines pins e overrides) ++ ['\n']

end Lookup

end Saltern
