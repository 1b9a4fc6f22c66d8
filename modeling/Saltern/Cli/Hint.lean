import Saltern.Text.Distance
import Saltern.Text.Units

/-!
# Hints

Who mistypes an option is told which known options come close: those with the fewest edits, at most
three, that still have more than two fifths in common with what was typed.
-/

namespace Saltern.Cli

/-- The number of edits between two words; words whose lengths differ by more than three count as
wholly different. -/
def edits (a b : Units) : Nat :=
  if a.length + 3 < b.length || b.length + 3 < a.length then max a.length b.length
  else Text.distance a b

/-- Whether two words that some edits lead from one to the other still have enough in common. -/
def isSimilar (a b : Units) (edits : Nat) : Bool :=
  2 * max a.length b.length < 5 * (max a.length b.length - edits)

/-- How far a candidate is from a word, if it is near enough to be thought of. -/
def nearness? (word candidate : Text) : Option Nat :=
  let n := edits (Text.units word) (Text.units candidate)
  if 1 < candidate.length && isSimilar (Text.units word) (Text.units candidate) n && n ≤ 3 then some n
  else none

/-- The candidates nearest to a word. -/
def nearest (word : Text) (candidates : List Text) : List Text :=
  let near := candidates.eraseDups.filterMap fun c ↦ (nearness? word c).map (·, c)
  let least := (near.map Prod.fst).min?
  ((near.filter fun e ↦ least = some e.1).map Prod.snd).mergeSort Text.precedes

/-- The hint for an option that is not understood; only long options get one. -/
def hint (typed : Text) (longNames : List Text) : Text :=
  match typed with
  | '-' :: '-' :: word =>
    match (nearest word longNames).map fun n ↦ '-' :: '-' :: n with
    | [] => []
    | [one] => "\n(Did you mean " ++ one ++ ['?', ')']
    | several => "\n(Did you mean one of " ++ Text.joinWith [',', ' '] several ++ ['?', ')']
  | _ => []

end Saltern.Cli
