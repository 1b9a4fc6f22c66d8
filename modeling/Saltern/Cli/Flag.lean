import Saltern.Text.Basic

/-!
# Flags and tasks

What may be given on the command line: the tasks, the flags that go with every task and those that
go with one.
-/

namespace Saltern.Cli

/-- The options of the command line. -/
inductive Flag
  | file
  | config
  | watch
  | format
  | quiet
  | debug
  | check
  | element
  | name
  | force
  deriving DecidableEq, Repr

namespace Flag

/-- The long name of a flag, after two hyphens. -/
def long : Flag → Text
  | .file => "file"
  | .config => "config"
  | .watch => "watch"
  | .format => "format"
  | .quiet => "quiet"
  | .debug => "debug"
  | .check => "check"
  | .element => "element"
  | .name => "name"
  | .force => "force"

/-- The short name of a flag, after one hyphen. -/
def short? : Flag → Option Char
  | .file => some 'f'
  | .config => some 'c'
  | .watch => some 'w'
  | _ => none

/-- What a flag's argument is called, if it takes one. -/
def argument? : Flag → Option Text
  | .file | .config => some "path"
  | .name => some "name"
  | _ => none

def takesArgument (f : Flag) : Bool := f.argument?.isSome

/-- A flag as it is shown to users. -/
def text (f : Flag) : Text :=
  let short : Text := match f.short? with
    | some c => ['-', c, ',', ' ']
    | none => []
  let argument : Text := match f.argument? with
    | some a => " <" ++ a ++ ['>']
    | none => []
  short ++ "--" ++ f.long ++ argument

/-- The flags that go with every task. -/
def common : List Flag := [.file, .config, .watch, .format, .quiet, .debug]

end Flag

/-- What the program is asked to do. -/
inductive Task
  | run
  | check
  | layout
  | start
  deriving DecidableEq, Repr

namespace Task

/-- The task that a word on the command line names. Without such a word the program runs. -/
def ofName? (t : Text) : Option Task :=
  if t = "check".toList then some .check
  else if t = "fmt".toList then some .layout
  else if t = "init".toList then some .start
  else none

/-- The flags that go with one task only. -/
def flags : Task → List Flag
  | .run | .check => []
  | .layout => [.check]
  | .start => [.element, .name, .force]

end Task

end Saltern.Cli
