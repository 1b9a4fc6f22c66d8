import Saltern.Text.LowerCase.Ranges

/-!
# Lower case

Full lower-casing: every letter of every script, the dotted capital I as two characters, and the
capital sigma by its place in the word.
-/

namespace Saltern.Text

/-- The lower-case form of an ASCII letter; any other character as it is. -/
def asciiLowerChar (c : Char) : Char :=
  if 'A' ≤ c ∧ c ≤ 'Z' then Char.ofNat (c.toNat + 32) else c

/-- A text with its ASCII letters in lower case. -/
def asciiLower (t : Text) : Text := t.map asciiLowerChar

/-- Whether a code point lies in one of some ranges, ends included. -/
def inRanges (n : Nat) (ranges : List (Nat × Nat)) : Bool := ranges.any fun (a, b) ↦ a ≤ n && n ≤ b

/-- Whether a character is passed over when looking for a letter with case. -/
def isCaseIgnorable (c : Char) : Bool := inRanges c.toNat caseIgnorable

/-- Whether a character is a letter with case. -/
def isCased (c : Char) : Bool := inRanges c.toNat cased

/-- Whether the first character not passed over is a letter with case. -/
def startsCased : Text → Bool
  | [] => false
  | c :: r => if isCaseIgnorable c then startsCased r else isCased c

/-- The lower-case form of a character by itself. -/
def lowerChar (c : Char) : Text :=
  if c.toNat < 0x80 then [asciiLowerChar c]
  else if c = '\u0130' then ['i', '\u0307']
  else
    match capitals.find? (·.covers c.toNat) with
    | some r => [Char.ofNat (c.toNat + r.shift).toNat]
    | none => [c]

/-- Lower case after a letter with case, or not after one. A capital sigma is written in its final
form when it closes a word. -/
def lowerAfter (afterCased : Bool) : Text → Text
  | [] => []
  | c :: r =>
    if c = 'Σ' then (if afterCased && !startsCased r then 'ς' else 'σ') :: lowerAfter true r
    else lowerChar c ++ lowerAfter (if isCaseIgnorable c then afterCased else isCased c) r

/-- A text in lower case. -/
def lower (t : Text) : Text := lowerAfter false t

end Saltern.Text
