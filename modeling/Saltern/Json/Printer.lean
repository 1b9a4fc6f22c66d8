import Saltern.Json.Basic

/-!
# Writing JSON

Values are written over several lines, each level two spaces further in. In strings only quotes,
backslashes, control characters and halves without a partner are escaped.
-/

namespace Saltern.Json

def hexDigit (n : Nat) : Char := Nat.digitChar n

/-- A character as it is written inside a string. -/
def escapeChar (c : Char) : Text :=
  if c = '"' then ['\\', '"']
  else if c = '\\' then ['\\', '\\']
  else if c = '\x08' then ['\\', 'b']
  else if c = '\t' then ['\\', 't']
  else if c = '\n' then ['\\', 'n']
  else if c = '\x0c' then ['\\', 'f']
  else if c = '\r' then ['\\', 'r']
  else if c.toNat < 0x20 then
    ['\\', 'u', '0', '0', hexDigit (c.toNat / 16), hexDigit (c.toNat % 16)]
  else [c]

/-- The escape of a unit by its four digits. -/
def escapeUnit (u : UInt16) : Text :=
  let n := u.toNat
  ['\\', 'u', hexDigit (n / 0x1000), hexDigit (n / 0x100 % 16), hexDigit (n / 16 % 16), hexDigit (n % 16)]

/-- A piece of a string as it is written. -/
def escapePiece : Units.Piece → Text
  | .char c => escapeChar c
  | .half u => escapeUnit u

/-- A string as a literal. -/
def quote (s : Units) : Text := '"' :: s.pieces.flatMap escapePiece ++ ['"']

theorem quote_units (t : Text) : quote t.units = '"' :: t.flatMap escapeChar ++ ['"'] := by
  rw [quote, Units.pieces_units, List.flatMap_map]
  rfl

def printDecimal (d : Decimal) : Text :=
  (if d.negative then ['-'] else []) ++ Text.numeral d.digits ++
    if d.exponent = 0 then []
    else 'e' :: (if d.exponent < 0 then ['-'] else []) ++ Text.numeral d.exponent.natAbs

/-- The spaces in front of a line of a given level. -/
def indent (level : Nat) : Text := List.replicate (2 * level) ' '

/-- Lines between brackets, one level further in. -/
def enclosed (opening closing : Char) (level : Nat) (lines : List Text) : Text :=
  if lines.isEmpty then [opening, closing]
  else
    opening :: '\n' ::
      Text.joinWith [',', '\n'] (lines.map fun l ↦ indent (level + 1) ++ l) ++
        '\n' :: indent level ++ [closing]

mutual

/-- A value at a given level. -/
def print (level : Nat) : Json → Text
  | .null => "null"
  | .bool true => "true"
  | .bool false => "false"
  | .num d => printDecimal d
  | .str s => quote s
  | .arr items => enclosed '[' ']' level (printItems (level + 1) items)
  | .obj members => enclosed '\x7b' '\x7d' level (printMembers (level + 1) members)

def printItems (level : Nat) : List Json → List Text
  | [] => []
  | v :: rest => print level v :: printItems level rest

def printMembers (level : Nat) : List (Units × Json) → List Text
  | [] => []
  | (k, v) :: rest => (quote k ++ ':' :: ' ' :: print level v) :: printMembers level rest

end

/-- A value as text. -/
def text (v : Json) : Text := print 0 v

end Saltern.Json
