/-!
# Distance between words

How many edits lead from one word to another, where an edit inserts, deletes or replaces one unit or
swaps two neighbours, and no stretch is edited twice.
-/

namespace Saltern.Text

variable {α : Type} [DecidableEq α]

/-- The distances from a beginning of one word that ends in `c` to all beginnings of another. Known
are the unit before `c`, the distance just computed and the one above it to the left, the unit of
the other word just passed, and the rows one and two units back. -/
def distances (c : α) (before : Option α) (left corner : Nat) (passed : Option α) :
    (word : List α) → (row older : List Nat) → List Nat
  | d :: word, up :: row, older =>
    let plain := min (min (up + 1) (left + 1)) (if c = d then corner else corner + 1)
    let best :=
      match older with
      | s :: _ => if passed = some c ∧ before = some d then min plain (s + 1) else plain
      | [] => plain
    best :: distances c before best up (some d) word row (if passed.isSome then older.tail else older)
  | _, _, _ => []

/-- The distance of two words, of the first of which `done` units are used up: the unit before, the
last row and the one before it are known. -/
def distanceFrom (other : List α) (done : Nat) (before : Option α) (row older : List Nat) :
    List α → Nat
  | [] => row.getLast?.getD 0
  | c :: word =>
    let next := (done + 1) :: distances c before (done + 1) done none other row.tail older
    distanceFrom other (done + 1) (some c) next row word

/-- How many edits lead from one word to another. -/
def distance (word other : List α) : Nat :=
  distanceFrom other 0 none (List.range (other.length + 1)) [] word

end Saltern.Text
