import Saltern.Json.Basic

/-!
# Reading JSON

The strict grammar: blanks are spaces, tabs and line ends, numbers have no superfluous zeros,
strings hold no control characters. Of members with one key the last counts, at the first one's
place.
-/

namespace Saltern.Json

def isBlank (c : Char) : Bool := c = ' ' || c = '\t' || c = '\n' || c = '\r'

def skipBlanks (t : Text) : Text := t.dropWhile isBlank

/-- The rest of a text that starts with a given word. -/
def expect? (word t : Text) : Option Text := if word.isPrefixOf t then some (t.drop word.length) else none

def hexValue? (c : Char) : Option Nat :=
  if c.isDigit then some (c.toNat - '0'.toNat)
  else if 'a' ≤ c && c ≤ 'f' then some (c.toNat - 'a'.toNat + 10)
  else if 'A' ≤ c && c ≤ 'F' then some (c.toNat - 'A'.toNat + 10)
  else none

/-- The value of four hexadecimal digits. -/
def hexValue4? (a b c d : Char) : Option Nat := do
  return ((((← hexValue? a) * 16 + (← hexValue? b)) * 16 + (← hexValue? c)) * 16) + (← hexValue? d)

/-- What a character stands for after a backslash. -/
def unescaped? (c : Char) : Option Char :=
  if c = '"' || c = '\\' || c = '/' then some c
  else if c = 'b' then some '\x08'
  else if c = 't' then some '\t'
  else if c = 'n' then some '\n'
  else if c = 'f' then some '\x0c'
  else if c = 'r' then some '\r'
  else none

/-- A string after its opening quote, and the rest behind its closing quote. An escape by four digits
stands for one unit, which may be a half without a partner. -/
def readString : Text → Option (Units × Text)
  | [] => none
  | '"' :: r => some ([], r)
  | '\\' :: 'u' :: a :: b :: c :: d :: r =>
    match hexValue4? a b c d, readString r with
    | some n, some (s, rest) => some (n.toUInt16 :: s, rest)
    | _, _ => none
  | '\\' :: e :: r =>
    match unescaped? e, readString r with
    | some c, some (s, rest) => some (Text.charUnits c ++ s, rest)
    | _, _ => none
  | c :: r =>
    if c.toNat < 0x20 then none
    else
      match readString r with
      | some (s, rest) => some (Text.charUnits c ++ s, rest)
      | none => none

def digitsValue (t : Text) : Nat := t.foldl (fun n c ↦ 10 * n + (c.toNat - '0'.toNat)) 0

/-- At least one digit, and the rest. -/
def readDigits (t : Text) : Option (Text × Text) :=
  let ds := t.takeWhile Char.isDigit
  if ds.isEmpty then none else some (ds, t.dropWhile Char.isDigit)

/-- A fraction, if a point says that one follows. -/
def readFraction : Text → Option (Text × Text)
  | '.' :: r => readDigits r
  | t => some ([], t)

/-- The digits of an exponent after its sign. -/
def readExponentDigits : Text → Option (Int × Text)
  | '-' :: r => (readDigits r).map fun (ds, rest) ↦ (-(digitsValue ds : Int), rest)
  | '+' :: r => (readDigits r).map fun (ds, rest) ↦ ((digitsValue ds : Int), rest)
  | t => (readDigits t).map fun (ds, rest) ↦ ((digitsValue ds : Int), rest)

/-- An exponent, if a letter says that one follows. -/
def readExponent : Text → Option (Int × Text)
  | 'e' :: r => readExponentDigits r
  | 'E' :: r => readExponentDigits r
  | t => some (0, t)

/-- A number without its sign. -/
def readUnsigned (negative : Bool) (t : Text) : Option (Decimal × Text) := do
  let (whole, t₁) ← readDigits t
  if whole.head? = some '0' && 1 < whole.length then none
  else
    let (fraction, t₂) ← readFraction t₁
    let (exponent, rest) ← readExponent t₂
    return (⟨negative, digitsValue (whole ++ fraction), exponent - fraction.length⟩, rest)

def readDecimal : Text → Option (Decimal × Text)
  | '-' :: r => readUnsigned true r
  | t => readUnsigned false t

mutual

/-- A value at the start of a text, blanks before it skipped, and the rest. -/
def readValue : (fuel : Nat) → Text → Option (Json × Text)
  | 0, _ => none
  | fuel + 1, t =>
    match skipBlanks t with
    | '"' :: r => (readString r).map fun (s, rest) ↦ (.str s, rest)
    | '[' :: r =>
      match skipBlanks r with
      | ']' :: rest => some (.arr [], rest)
      | _ => (readItems fuel r).map fun (vs, rest) ↦ (.arr vs, rest)
    | '\x7b' :: r =>
      match skipBlanks r with
      | '\x7d' :: rest => some (.obj [], rest)
      | _ =>
        (readMembers fuel r).map fun (ms, rest) ↦
          (.obj (ms.foldl (fun es m ↦ Table.write m.1 m.2 es) []), rest)
    | 'n' :: r => (expect? "ull" r).map (.null, ·)
    | 't' :: r => (expect? "rue" r).map (.bool true, ·)
    | 'f' :: r => (expect? "alse" r).map (.bool false, ·)
    | t => (readDecimal t).map fun (d, rest) ↦ (.num d, rest)

/-- The items of an array, at least one, and the rest behind the bracket. -/
def readItems : (fuel : Nat) → Text → Option (List Json × Text)
  | 0, _ => none
  | fuel + 1, t =>
    match readValue fuel t with
    | none => none
    | some (v, t) =>
      match skipBlanks t with
      | ',' :: r => (readItems fuel r).map fun (vs, rest) ↦ (v :: vs, rest)
      | ']' :: rest => some ([v], rest)
      | _ => none

/-- The members of an object, at least one, and the rest behind the brace. -/
def readMembers : (fuel : Nat) → Text → Option (List (Units × Json) × Text)
  | 0, _ => none
  | fuel + 1, t =>
    match skipBlanks t with
    | '"' :: r =>
      match readString r with
      | none => none
      | some (k, t) =>
        match skipBlanks t with
        | ':' :: r =>
          match readValue fuel r with
          | none => none
          | some (v, t) =>
            match skipBlanks t with
            | ',' :: r => (readMembers fuel r).map fun (ms, rest) ↦ ((k, v) :: ms, rest)
            | '\x7d' :: rest => some ([(k, v)], rest)
            | _ => none
        | _ => none
    | _ => none

end

/-- A value at the start of a text, with fuel for every bracket and comma of it. -/
def readFirst (t : Text) : Option (Json × Text) := readValue (2 * t.length + 2) t

/-- The value that a whole text spells. -/
def ofText? (t : Text) : Option Json :=
  match readFirst t with
  | some (v, rest) => if (skipBlanks rest).isEmpty then some v else none
  | none => none

end Saltern.Json
