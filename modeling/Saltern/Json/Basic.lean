import Saltern.Table
import Saltern.Text.Count

/-!
# JSON values
-/

namespace Saltern

/-- A number as written: digits with a sign, times a power of ten. -/
structure Decimal where
  negative : Bool
  digits : Nat
  exponent : Int
  deriving DecidableEq, Repr

/-- Whether the number closest to a decimal, of those with 53 binary digits, is one: from half a
step of 2^-53 below one to half a step of 2^-52 above. Only decimals of the size of one are
multiplied out. -/
def Decimal.isOne (d : Decimal) : Bool :=
  let size := (Text.numeral d.digits).length + d.exponent
  if d.negative || size < 0 || 1 < size then false
  else if 0 ≤ d.exponent then d.digits = 1
  else
    let scale := Nat.pow 10 d.exponent.natAbs
    18014398509481983 * scale ≤ 18014398509481984 * d.digits &&
      9007199254740992 * d.digits ≤ 9007199254740993 * scale

/-- A JSON value. Strings are lists of 16-bit units, and the members of an object stand in the order in
which they are written. -/
inductive Json
  | null
  | bool (b : Bool)
  | num (d : Decimal)
  | str (s : Units)
  | arr (items : List Json)
  | obj (members : List (Units × Json))
  deriving Inhabited

namespace Json

def ofNat (n : Nat) : Json := .num ⟨false, n, 0⟩

/-- The value of a member of an object. -/
def member? : Json → Text → Option Json
  | .obj ms, k => Table.lookup k.units ms
  | _, _ => none

def string? : Json → Option Units
  | .str s => some s
  | _ => none

/-- The members of an object that are all strings. -/
def stringMembers? : Json → Option (List (Units × Units))
  | .obj ms => ms.mapM fun m ↦ m.2.string?.map (m.1, ·)
  | _ => none

/-- The number that a key spells, when it is one that counts as a position in a list: none above
4294967294. -/
def position? (key : Units) : Option Nat :=
  let key := key.text
  if key = ['0'] then some 0
  else if key.isEmpty || key.head? = some '0' || !key.all Char.isDigit then none
  else
    let n := key.foldl (fun n c ↦ 10 * n + (c.toNat - '0'.toNat)) 0
    if n < 4294967295 then some n else none

/-- Members in the order in which an object lists them: positions by their number, then the other
keys as they come. -/
def arranged {α : Type} (ms : List (Units × α)) : List (Units × α) :=
  let positions := ms.filterMap fun m ↦ (position? m.1).map (·, m)
  (positions.mergeSort fun a b ↦ decide (a.1 ≤ b.1)).map (·.2) ++
    ms.filter fun m ↦ (position? m.1).isNone

/-- An object of strings, its members arranged. -/
def ofStrings (es : List (Units × Units)) : Json := .obj ((arranged es).map fun e ↦ (e.1, .str e.2))

end Json

end Saltern
