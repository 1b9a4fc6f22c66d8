import Saltern.Cli.Flag

/-!
# Sorting arguments

The arguments of a command line are sorted into flags with their values, operands, and what is not
understood. From the first option that is not understood on, arguments that are no known flag are
kept back for whoever may understand them.
-/

namespace Saltern.Cli

/-- What one argument is, by itself. -/
inductive Reading
  /-- A flag that takes no argument. -/
  | switch (f : Flag)
  /-- A flag whose value is the next argument. -/
  | wanting (f : Flag)
  /-- A flag with its value behind it. -/
  | valued (f : Flag) (value : Text)
  /-- A short flag that takes no argument, with more of them behind it. -/
  | cluster (f : Flag) (more : Text)
  /-- An option that is not understood. -/
  | unknown
  /-- No option at all. -/
  | operand
  deriving DecidableEq, Repr

namespace Reading

/-- The flag that a whole argument names. -/
def flag? (fs : List Flag) (a : Text) : Option Flag :=
  fs.find? fun f ↦ a = '-' :: '-' :: f.long || f.short?.any fun c ↦ a = ['-', c]

/-- The flag with a given letter as its short name. -/
def short? (fs : List Flag) (c : Char) : Option Flag := fs.find? fun f ↦ f.short? = some c

/-- A flag by its short name, with something behind it. -/
def joined? (fs : List Flag) : Text → Option Reading
  | '-' :: c :: d :: r =>
    (short? fs c).map fun f ↦ if f.takesArgument then .valued f (d :: r) else .cluster f (d :: r)
  | _ => none

/-- A flag by its long name, with an equals sign and its value. -/
def assigned? (fs : List Flag) (a : Text) : Option Reading :=
  match Text.cutAt '=' a with
  | none => none
  | some (head, value) =>
    match flag? fs head with
    | none => none
    | some f => if f.takesArgument then some (.valued f value) else none

/-- What an argument is that is no known flag. -/
def ofOther : Text → Reading
  | '-' :: _ :: _ => .unknown
  | _ => .operand

/-- What an argument is, by itself, where certain flags are known. -/
def ofText (fs : List Flag) (a : Text) : Reading :=
  match flag? fs a with
  | some f => if f.takesArgument then .wanting f else .switch f
  | none => (joined? fs a).getD ((assigned? fs a).getD (ofOther a))

theorem length_of_joined? {fs : List Flag} {a more : Text} {f : Flag}
    (h : joined? fs a = some (.cluster f more)) : more.length + 2 = a.length := by
  unfold joined? at h
  split at h
  · obtain ⟨g, _, hg⟩ := Option.map_eq_some_iff.mp h
    split at hg
    · cases hg
    · cases hg
      simp
  · cases h

theorem assigned?_ne_cluster {fs : List Flag} {a more : Text} {f : Flag} :
    assigned? fs a ≠ some (.cluster f more) := by
  unfold assigned?
  split
  · simp
  · split
    · simp
    · split <;> simp

theorem ofOther_ne_cluster {a more : Text} {f : Flag} : ofOther a ≠ .cluster f more := by
  unfold ofOther
  split <;> simp

/-- The arguments left of a cluster are shorter than the cluster. -/
theorem length_of_cluster {fs : List Flag} {a more : Text} {f : Flag}
    (h : ofText fs a = .cluster f more) : more.length + 2 = a.length := by
  unfold ofText at h
  split at h
  · split at h <;> cases h
  · cases hj : joined? fs a with
    | some r =>
      rw [hj, Option.getD_some] at h
      exact length_of_joined? (hj.trans (congrArg some h))
    | none =>
      rw [hj, Option.getD_none] at h
      cases ha : assigned? fs a with
      | some r =>
        rw [ha, Option.getD_some] at h
        exact absurd (ha.trans (congrArg some h)) assigned?_ne_cluster
      | none =>
        rw [ha, Option.getD_none] at h
        exact absurd h ofOther_ne_cluster

end Reading

/-- A command line, sorted. -/
structure Arguments where
  given : List (Flag × Text)
  operands : List Text
  unknown : List Text
  deriving DecidableEq, Repr

namespace Arguments

def none : Arguments := ⟨[], [], []⟩

def withFlag (f : Flag) (value : Text) (a : Arguments) : Arguments :=
  { a with given := (f, value) :: a.given }

def withOperand (t : Text) (a : Arguments) : Arguments := { a with operands := t :: a.operands }

def withUnknown (t : Text) (a : Arguments) : Arguments := { a with unknown := t :: a.unknown }

/-- Sorts arguments, where certain flags are known. The only failure is a flag at the end whose
argument is missing. Behind two hyphens nothing is a flag. -/
def sort (fs : List Flag) (pastUnknown : Bool) : List Text → Except Flag Arguments
  | [] => .ok .none
  | a :: rest =>
    if a = ['-', '-'] then
      .ok (if pastUnknown then ⟨[], [], a :: rest⟩ else ⟨[], rest, []⟩)
    else
      match h : Reading.ofText fs a with
      | .switch f => (sort fs pastUnknown rest).map (withFlag f [])
      | .wanting f =>
        match rest with
        | [] => .error f
        | value :: rest => (sort fs pastUnknown rest).map (withFlag f value)
      | .valued f value => (sort fs pastUnknown rest).map (withFlag f value)
      | .cluster f more =>
        have : more.length + 2 = a.length := Reading.length_of_cluster h
        (sort fs pastUnknown (('-' :: more) :: rest)).map (withFlag f [])
      | .unknown => (sort fs true rest).map (withUnknown a)
      | .operand => (sort fs pastUnknown rest).map (if pastUnknown then withUnknown a else withOperand a)
  termination_by as => as.flatten.length + as.length

end Arguments

end Saltern.Cli
