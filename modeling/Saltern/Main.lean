import Saltern.Cli.Execution
import Saltern.Project.Reach

/-!
# The program

The part of the disk that a task may look at is read, the command line is carried out on it, and
the disk is brought up to date with what came out.
-/

namespace Saltern.Disk

/-- What lies at a path. -/
def nodeAt (p : Path) : IO (Option Node) := do
  let place := (← IO.currentDir) / String.ofList p.text
  if ← place.isDir then return some .dir
  else if ← place.pathExists then return some (.file (← IO.FS.readFile place).toList)
  else return none

/-- A tree with what lies at a path put into it. -/
def note (t : FileTree) (p : Path) : IO FileTree := do
  match ← nodeAt p with
  | some n => return ⟨t.nodes.set p n⟩
  | none => return t

/-- The part of the disk that some paths and the directories on the way to them make up. -/
def look (ps : List Path) : IO FileTree := (ps.flatMap Path.lineage).eraseDups.foldlM note .empty

/-- The part of the disk that a task in a directory may look at, and the files kept in mind. -/
def lookFor (root : Path) (q : Request) (kept : Table Path Text) : IO Workspace := do
  let t ← look (Project.configPlaces root q)
  let c := match ((Project.loadConfig root q).run ⟨t, kept⟩).report.result with
    | .ok (_, c) => c
    | .error _ => .default
  return ⟨← look (root :: Project.places root q c), kept⟩

/-- Writes one entry of a tree to the disk. Files are replaced as a whole. -/
def put (p : Path) (n : Node) : IO Unit := do
  let place := String.ofList p.text
  match n with
  | .dir => IO.FS.createDirAll place
  | .file text =>
    IO.FS.writeFile (place ++ ".tmp") (String.ofList text)
    IO.FS.rename (place ++ ".tmp") place

/-- Brings the disk up to date with a tree that was changed. -/
def bring (before after : FileTree) : IO Unit :=
  after.nodes.entries.forM fun e ↦ if before.node? e.1 = some e.2 then pure () else put e.1 e.2

/-- Shows lines on the terminal. -/
def tell (ls : List Shown) : IO Unit := do
  let out ← IO.getStdout
  ls.forM fun l ↦
    match l.stream with
    | .output => out.putStrLn (String.ofList l.text)
    | .trouble => IO.eprintln (String.ofList l.text)
  out.flush

/-- The paths whose changes a watch minds. -/
def mindedPlaces (w : Watch) : List Path := w.source :: Project.configPlaces w.root w.request

/-- What happened to a path between two looks at the disk. -/
def event? (before after : FileTree) (p : Path) : Option Text :=
  if before.node? p = after.node? p then none
  else if !after.holds p then some "unlink"
  else if !before.holds p then some "add"
  else some "change"

/-- Tells a watch what happened between two looks at the disk. -/
def notice (before after : FileTree) (w : Watch) : Watch × List Message :=
  (mindedPlaces w).foldl
    (fun (w, ms) p ↦
      match event? before after p with
      | none => (w, ms)
      | some event =>
        let (w, more) := w.notice event p.text
        (w, ms ++ more))
    (w, [])

/-- The run that is due, from its start to its end. -/
def run (level : Level) (w : Watch) (kept : Table Path Text) : IO (Watch × Table Path Text) := do
  let before ← lookFor w.root w.request kept
  let (w, first) := w.fire before.tree
  let (w, after, rest) := w.finish before
  bring before.tree after.tree
  tell (Message.shownAt level (first ++ rest))
  return (w, after.kept)

/-- Looks at the disk again and again. A run is due when nothing happened for a while. -/
partial def watch (level : Level) (w : Watch) (before : Workspace) : IO Unit := do
  IO.sleep w.delay.toNat.toUInt32
  let tree ← look (mindedPlaces w)
  let (noticed, ms) := notice before.tree tree w
  tell (Message.shownAt level ms)
  if ms.isEmpty && noticed.scheduler = w.scheduler && w.scheduler.pending then
    let (w, kept) ← run level w before.kept
    watch level w ⟨tree, kept⟩
  else watch level noticed ⟨tree, before.kept⟩

/-- What a command line asks of the project, as far as it decides where to look. -/
def requestOf (args : List Text) : Request :=
  match Cli.Invocation.ofArguments args with
  | .ok i => i.request
  | .error _ => .plain

end Saltern.Disk

def main (args : List String) : IO UInt32 := do
  let root := Saltern.Path.ofText (← IO.currentDir).toString.toList
  let args := args.map String.toList
  let before ← Saltern.Disk.lookFor root (Saltern.Disk.requestOf args) .empty
  let e := Saltern.Cli.execute root args (.upTo .info) before
  Saltern.Disk.bring before.tree e.workspace.tree
  Saltern.Disk.tell e.lines
  match e.watch? with
  | none => return e.status.toUInt32
  | some w =>
    let tree ← Saltern.Disk.look (Saltern.Disk.mindedPlaces w)
    Saltern.Disk.watch e.level w ⟨tree, e.workspace.kept⟩
    return 0
