import Saltern.Project.Run
import Saltern.Watch.Scheduler

/-!
# Watching a project

A watch looks at the directories of a project and of its source file, and regenerates when the
source or a configuration file changes. Which files these are is settled when the watch starts. A
run that fails is reported, and the watch goes on.
-/

namespace Saltern

structure Watch where
  root : Path
  request : Request
  source : Path
  /-- How many milliseconds changes are gathered for; below zero is as good as none. -/
  delay : Int
  /-- Who speaks of the watch. -/
  speaker : Speaker
  /-- Who speaks of its runs. -/
  runner : Speaker
  scheduler : Scheduler
  /-- How many runs were started. -/
  runs : Nat

namespace Watch

def usualDelay : Int := 150

/-- Starts a watch, which fails if the configuration cannot be read. -/
def start (root : Path) (q : Request) (delay : Int) (speaker whoRuns : Speaker) :
    Action Failure Watch := do
  let (_, c) ← Project.loadConfig root q
  let source := q.sourcePath root c
  .tell speaker .info ("Watching " ++ source.text)
  return ⟨root, q, source, delay, speaker, whoRuns, .start, 0⟩

/-- The directories that a watch looks at. -/
def directories (w : Watch) : List Path :=
  if w.source.parent = w.root then [w.root] else [w.root, w.source.parent]

/-- Whether a path is one of configuration: the one asked for, or any of the usual sort. -/
def isConfig (w : Watch) (p : Path) : Bool :=
  match w.request.configFile? w.root with
  | some c => p = c
  | none => p.parent = w.root && Text.startsWith p.name "brine.config."

/-- Whether a change at a path calls for a run. -/
def minds (w : Watch) (p : Path) : Bool := p = w.source || w.isConfig p

/-- Something happened to a file. -/
def notice (w : Watch) (event path : Text) : Watch × List Message :=
  if w.minds (w.root.resolve path) then
    ({ w with scheduler := w.scheduler.changed },
      [⟨w.speaker, .debug, "Event " ++ event ++ " on " ++ path⟩])
  else (w, [])

/-- The file system reports trouble of its own. -/
def trouble (w : Watch) (what : Text) : List Message :=
  [⟨w.speaker, .error, "Watcher error: " ++ what⟩]

/-- The timer goes off. A run that starts looks for the configuration file at once. -/
def fire (w : Watch) (t : FileTree) : Watch × List Message :=
  if w.scheduler.startsRun then
    ({ w with scheduler := w.scheduler.fired, runs := w.runs + 1 },
      ⟨w.speaker, .info, "Change detected → regenerating..."⟩ ::
        (Project.search w.root w.request t).messages)
  else ({ w with scheduler := w.scheduler.fired }, [])

/-- What is left of a run after its configuration file was looked for. -/
def rest (w : Watch) (s : Workspace) : Outcome Failure Project.Compiled :=
  match (Project.search w.root w.request s.tree).result with
  | .error e => ⟨s, .fail e⟩
  | .ok found => (Project.runWith w.root w.request w.runner found).run s

/-- The message about a run that failed. -/
def failure (w : Watch) (r : Except Failure Project.Compiled) : List Message :=
  match r with
  | .error e => [⟨w.speaker, .error, e.message⟩]
  | .ok _ => []

/-- The run under way goes through to its end. -/
def finish (w : Watch) (s : Workspace) : Watch × Workspace × List Message :=
  if w.scheduler.running then
    let o := w.rest s
    ({ w with scheduler := w.scheduler.finished }, o.workspace,
      o.report.messages ++ w.failure o.report.result)
  else (w, s, [])

end Watch

end Saltern
