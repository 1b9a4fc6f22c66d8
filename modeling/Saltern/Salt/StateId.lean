import Saltern.Table
import Saltern.Text.Count

/-!
# State ids

Every state of a manifest has an id of its own. A wanted id that was handed out before gets the
least number from two on that makes it new.
-/

namespace Saltern

/-- The ids handed out so far, each with the last number tried for it. -/
structure StateIds where
  counts : Table Text Nat

namespace StateIds

def fresh : StateIds := ⟨.empty⟩

/-- An id with a number behind it. -/
def numbered (id : Text) (n : Nat) : Text := id ++ '_' :: Text.numeral n

/-- The least number from `n` on that makes an id new, when one of the next `tries` does. -/
def freeFrom (taken : List Text) (id : Text) : (tries n : Nat) → Nat
  | 0, n => n
  | tries + 1, n => if taken.contains (numbered id n) then freeFrom taken id tries (n + 1) else n

/-- Hands out an id for a wanted one. -/
def claim (ids : StateIds) (id : Text) : Text × StateIds :=
  match ids.counts.get? id with
  | none => (id, ⟨ids.counts.set id 1⟩)
  | some n =>
    let k := freeFrom ids.counts.keys id ids.counts.size (n + 1)
    (numbered id k, ⟨(ids.counts.set id k).set (numbered id k) 1⟩)

/-- Hands out an id for each of several wanted ones. -/
def claimAll (ids : StateIds) : List Text → List Text × StateIds
  | [] => ([], ids)
  | id :: rest =>
    let (got, ids) := ids.claim id
    let (more, ids) := ids.claimAll rest
    (got :: more, ids)

end StateIds

end Saltern
