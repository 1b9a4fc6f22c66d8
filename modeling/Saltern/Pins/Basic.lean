import Saltern.Document.Basic

/-!
# Pins

A package with a version is pinned: its version is kept in a store that all documents share, under
a key made of the document's name and the package's.
-/

namespace Saltern

/-- Versions by key. A store may hold strings that are no texts. -/
abbrev Pins := Table Units Units

/-- Versions by key for some environments, each layered over the common pins. -/
abbrev Overrides := Table Units Pins

/-- The key of a document's package. -/
def pinKey (document package : Text) : Text := document ++ '.' :: package

/-- The version of a package that is to be there with one. -/
def Item.pin? (document : Text) (i : Item) : Option (Units × Units) :=
  i.value?.map fun version ↦ ((pinKey document i.target).units, version.units)

namespace Document

/-- Whether some package is to be there with a version. -/
def isPinned (d : Document) : Bool := d.packages.any fun i ↦ i.value?.isSome

/-- The pins a document declares; of two for one key the later counts. -/
def pins (d : Document) : Pins := .ofList (d.packages.filterMap (Item.pin? d.name))

end Document

end Saltern
