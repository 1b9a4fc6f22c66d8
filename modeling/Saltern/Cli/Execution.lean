import Saltern.Cli.Invocation
import Saltern.Log.Terminal
import Saltern.Project.Run
import Saltern.Project.Starter
import Saltern.Watch.Basic

/-!
# Carrying out a command line

A command line runs in a project directory. What it tells goes to the terminal as far as the level
lets it through; an error with a diagnostic is always shown.
-/

namespace Saltern.Cli

namespace Invocation

/-- What is asked of the project. -/
def request (i : Invocation) : Request := ⟨i.path? .file, i.path? .config, i.has .format⟩

/-- What is asked of a new Brinefile. -/
def starterRequest (i : Invocation) : StarterRequest :=
  ⟨i.has .element, i.value? .name, i.has .force, i.path? .config⟩

/-- The level that counts while the command line is carried out. -/
def level (i : Invocation) (usual : Level) : Level :=
  if i.has .quiet then .silent else if i.has .debug then .upTo .debug else usual

end Invocation

/-- How a task ended: with which status, and with which watch left running. -/
structure Ended where
  status : Nat
  watch? : Option Watch

def Ended.well : Ended := ⟨0, none⟩

/-- A path as it is told: where it leads, if it is given. -/
def toldPath (root : Path) : Option Text → Text
  | some t => (root.resolve t).text
  | none => "auto"

/-- The first message of a run. -/
def announcement (root : Path) (i : Invocation) : Text :=
  let watch : Text := if i.has .watch then "yes" else "no"
  "Starting brine (cwd=" ++ root.text ++ ", file=" ++ toldPath root (i.path? .file) ++ ", config=" ++
    toldPath root (i.path? .config) ++ ", watch=" ++ watch ++ [')']

/-- Runs once, or starts to watch. -/
def run (root : Path) (i : Invocation) : Action Failure Ended := do
  .tell .commandLine .debug (announcement root i)
  if i.has .watch then
    let w ← Watch.start root i.request Watch.usualDelay .commandLine .commandLine
    return ⟨0, some w⟩
  else
    let _ ← Project.run root i.request .commandLine
    return .well

/-- Says whether the Brinefile is valid. -/
def check (root : Path) (i : Invocation) : Action Failure Ended := do
  let _ ← Project.check root i.request .commandLine
  return .well

/-- Puts the Brinefile into canonical layout, or says that it is not. -/
def layout (root : Path) (i : Invocation) : Action Failure Ended := do
  let s ← Project.loadSource root i.request
  let formatted ← .look fun _ ↦ .ofExcept .fault (Brinefile.format true s.text)
  if !formatted.changed then
    .tell .commandLine .info (s.path.name ++ " is already formatted.")
    return .well
  else if i.has .check then
    .tell .commandLine .warn (s.path.name ++ " is not formatted. Run \"brine fmt\" to fix it.")
    return ⟨1, none⟩
  else
    .change .disk (·.write s.path formatted.text)
    .tell .commandLine .info ("Formatted " ++ s.path.text)
    return .well

/-- Writes a starter Brinefile. -/
def start (root : Path) (i : Invocation) : Action Failure Ended := do
  let _ ← Project.start root i.starterRequest
  return .well

/-- Carries out what a command line asks for. -/
def perform (root : Path) (i : Invocation) : Action Failure Ended :=
  match i.task with
  | .run => run root i
  | .check => check root i
  | .layout => layout root i
  | .start => start root i

/-- The lines that show a failure. -/
def failureLines (level : Level) (f : Failure) : List Shown :=
  match f.diagnostic? with
  | some d => [⟨.trouble, d.report⟩]
  | none => Message.shownAt level [⟨.program, .error, f.message⟩]

/-- All that is left when a command line has been carried out. -/
structure Ending where
  workspace : Workspace
  /-- The level that counts from then on. -/
  level : Level
  lines : List Shown
  status : Nat
  watch? : Option Watch

/-- Carries out a command line in a directory, at a usual level. -/
def execute (root : Path) (args : List Text) (usual : Level) (w : Workspace) : Ending :=
  match Invocation.ofArguments args with
  | .error r =>
    ⟨w, usual, [⟨if r.isMistake then .trouble else .output, r.message⟩], if r.isMistake then 1 else 0,
      none⟩
  | .ok i =>
    let level := i.level usual
    let o := (perform root i).run w
    let told := Message.shownAt level o.report.messages
    match o.report.result with
    | .ok ended => ⟨o.workspace, level, told, ended.status, ended.watch?⟩
    | .error f => ⟨o.workspace, level, told ++ failureLines level f, 1, none⟩

end Saltern.Cli
