import Saltern.Cli.Arguments
import Saltern.Cli.Hint
import Saltern.Table

/-!
# Invocations

What a command line asks for. The first operand names the task; flags that go with every task may
stand anywhere, and operands that nobody asked for are passed over.
-/

namespace Saltern.Cli

/-- A task and the flags that were given, in order. -/
structure Invocation where
  task : Task
  given : List (Flag × Text)
  deriving DecidableEq, Repr

/-- Why a command line is not carried out. -/
inductive Refusal
  | missingArgument (f : Flag)
  | unknownOption (typed : Text) (longNames : List Text)
  /-- Only help was asked for. -/
  | help
  deriving DecidableEq, Repr

namespace Refusal

/-- What is said about a command line that is not carried out. -/
def message : Refusal → Text
  | .missingArgument f => "error: option '" ++ f.text ++ "' argument missing"
  | .unknownOption typed longNames =>
    "error: unknown option '" ++ typed ++ '\'' :: hint typed longNames
  | .help => "Usage: brine [options] [check|fmt|init]"

/-- Whether it is the user's mistake. -/
def isMistake : Refusal → Bool
  | .help => false
  | _ => true

end Refusal

namespace Invocation

def isHelp (t : Text) : Bool := t = ['-', 'h'] || t = "--help".toList

/-- The long names of the options that may be thought of, help among them. -/
def longNames (fs : List Flag) : List Text := fs.map Flag.long ++ ["help".toList]

/-- What to do with the arguments that nobody understood. -/
def settle (unknown : List Text) (names : List Text) (i : Invocation) : Except Refusal Invocation :=
  if unknown.any isHelp then .error .help
  else
    match unknown with
    | [] => .ok i
    | typed :: _ => .error (.unknownOption typed names)

/-- Reads the flags of a task among the arguments that were kept back. -/
def ofTask (task : Task) (a : Arguments) : Except Refusal Invocation := do
  let own ← (Arguments.sort task.flags false a.unknown).mapError .missingArgument
  settle own.unknown (longNames task.flags ++ longNames Flag.common) ⟨task, a.given ++ own.given⟩

/-- What a command line asks for. -/
def ofArguments (args : List Text) : Except Refusal Invocation := do
  let a ← (Arguments.sort Flag.common false args).mapError .missingArgument
  match a.operands.head?.bind Task.ofName? with
  | some task => ofTask task a
  | none => settle a.unknown (longNames Flag.common) ⟨.run, a.given⟩

/-- Whether a flag was given. -/
def has (i : Invocation) (f : Flag) : Bool := i.given.any fun e ↦ e.1 = f

/-- The last value given with a flag. -/
def value? (i : Invocation) (f : Flag) : Option Text := Table.lookup f i.given.reverse

/-- The last value given with a flag, unless it is empty. -/
def path? (i : Invocation) (f : Flag) : Option Text :=
  match i.value? f with
  | some (c :: r) => some (c :: r)
  | _ => none

end Invocation

end Saltern.Cli
