import Saltern.Text.Basic

/-!
# Counts in words
-/

namespace Saltern.Text

/-- The decimal digits of a number. -/
def numeral (n : Nat) : Text := Nat.toDigits 10 n

/-- An integer in decimal digits, with a sign if it is below zero. -/
def integer (n : Int) : Text := if n < 0 then '-' :: numeral n.natAbs else numeral n.natAbs

/-- A number with its noun, which takes its plural form for every number but one. -/
def counted (singular plural : Text) (n : Nat) : Text :=
  numeral n ++ " " ++ if n = 1 then singular else plural

/-- A number with a noun that takes an "s". -/
def countedRegular (singular : Text) (n : Nat) : Text := counted singular (singular ++ "s") n

end Saltern.Text
