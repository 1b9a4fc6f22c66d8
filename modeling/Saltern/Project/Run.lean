import Saltern.Brinefile.Layout
import Saltern.Document.Assembly
import Saltern.Project.Locate
import Saltern.Project.Plan

/-!
# Checking and running

A check reads the Brinefile and says what it describes. A run plans what is to be written and then
writes it; when asked to, it also puts the Brinefile into canonical layout.
-/

namespace Saltern.Project

/-- The document that a source describes. -/
def document (s : Source) : Report Failure Document := .ofExcept .fault (Document.ofText s.text)

/-- Reads the source of a project and says what it describes. -/
def check (root : Path) (q : Request) (speaker : Speaker) : Action Failure Document := do
  let s ← loadSource root q
  let d ← .look fun _ ↦ document s
  .tell speaker .info (s.path.name ++ " is valid (" ++ d.summary ++ [')'])
  return d

/-- The source in canonical layout, if it is not in it already. -/
def layoutFiles (s : Source) : Report Failure (List Artifact) := do
  let formatted ← .ofExcept .fault (Brinefile.format true s.text)
  return if formatted.changed then [⟨.source, s.path, formatted.text⟩] else []

/-- A document and what was planned for it. -/
structure Compiled where
  document : Document
  plan : Plan

/-- Everything of a run between its configuration and its first change. -/
def prepare (root : Path) (q : Request) (speaker : Speaker) (c : Config) (t : FileTree) :
    Report Failure Compiled := do
  let s ← source root q c t
  let d ← document s
  .tell speaker .debug d.summary
  let plan ← d.plan root c t
  let more ← if q.format || c.formatEnabled then layoutFiles s else .ok []
  return ⟨d, { plan with files := plan.files ++ more }⟩

/-- A run of a project whose configuration file is known. -/
def runWith (root : Path) (q : Request) (speaker : Speaker) (found : Option Path) :
    Action Failure Compiled := do
  let c ← config found
  let r ← .look (prepare root q speaker c)
  r.plan.write speaker
  if !r.plan.pins.isEmpty then
    .tell speaker .info ("pinned " ++ Text.countedRegular "package version" r.plan.pins.size)
  return r

/-- A run of a project. -/
def run (root : Path) (q : Request) (speaker : Speaker) : Action Failure Compiled := do
  let found ← .look (search root q)
  runWith root q speaker found

end Saltern.Project
