import Saltern.Brinefile.Keyword
import Saltern.Document.Basic

/-!
# Faults

The reasons for which a Brinefile is rejected. Each names the line to blame, counted from one, and
the section where one is known.
-/

namespace Saltern

inductive Fault
  /-- A marker names no known section. -/
  | unknownSection (keyword : Text) (line : Nat)
  /-- An item is removed and given a value at once. -/
  | removalWithValue (entry target : Text) (keyword : Keyword) (line : Nat)
  /-- An item line names nothing. -/
  | missingTarget (entry : Text) (kind : ItemKind) (keyword : Keyword) (line : Nat)
  /-- A service is given a value. -/
  | valueOnService (entry : Text) (keyword : Keyword) (line : Nat)
  /-- The value of a file or directory is no octal mode. -/
  | invalidMode (mode : Text) (keyword : Keyword) (line : Nat)
  | malformedSymlink (entry : Text) (line : Nat)
  /-- A sysctl line has no equals sign or no key. -/
  | settingWithoutValue (entry : Text) (line : Nat)
  /-- A sysctl line starts with a minus sign. -/
  | settingRemoval (entry : Text) (line : Nat)
  | malformedCronjob (entry : Text) (line : Nat)
  /-- An identity section declares no name. -/
  | emptyIdentity (keyword : Keyword) (line : Nat)
  /-- An identity section declares two names or more. -/
  | severalNames (first second : Text) (keyword : Keyword) (line : Nat)
  /-- A declared name is not dotted. -/
  | notDotted (name : Text) (keyword : Keyword) (line : Nat)
  /-- A second identity section. -/
  | conflictingIdentity (keyword : Keyword) (line : Nat)
  | missingIdentity
  /-- No description section says anything; the line is that of the first one, if there is one. -/
  | missingDescription (line : Option Nat)
  deriving DecidableEq, Repr

end Saltern
