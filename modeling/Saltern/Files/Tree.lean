import Saltern.Files.Path
import Saltern.Table

/-!
# File trees

What lies on a disk, as a value. Writing a file makes its directories and replaces the file as a
whole; it fails where a file stands in a directory's place or a directory in the file's.
-/

namespace Saltern

/-- What lies at a path. -/
inductive Node
  | file (text : Text)
  | dir
  deriving DecidableEq

/-- Why a file cannot be read, loaded or written. -/
inductive DiskFault
  | isDirectory
  /-- A directory was to be loaded as a module. -/
  | directoryLoad
  | notDirectory
  | noEntry
  deriving DecidableEq, Repr

/-- The name by which a refusal is known. -/
def DiskFault.code : DiskFault → Text
  | .isDirectory => "EISDIR"
  | .directoryLoad => "ERR_UNSUPPORTED_DIR_IMPORT"
  | .notDirectory => "ENOTDIR"
  | .noEntry => "ENOENT"

/-- Files and directories by path. The top directory is always there. -/
structure FileTree where
  nodes : Table Path Node

namespace FileTree

def empty : FileTree := ⟨.empty⟩

def node? (t : FileTree) (p : Path) : Option Node :=
  if p.parts.isEmpty then some .dir else t.nodes.get? p

def holds (t : FileTree) (p : Path) : Bool := (t.node? p).isSome

def isFile (t : FileTree) (p : Path) : Bool :=
  match t.node? p with
  | some (.file _) => true
  | _ => false

/-- The text of a file. -/
def read (t : FileTree) (p : Path) : Except DiskFault Text :=
  match t.node? p with
  | some (.file text) => .ok text
  | some .dir => .error .isDirectory
  | none => .error (if p.lineage.any t.isFile then .notDirectory else .noEntry)

/-- A directory put where nothing lies. -/
def addDir (t : FileTree) (p : Path) : FileTree :=
  if t.holds p then t else ⟨t.nodes.set p .dir⟩

/-- A tree with a directory and all those on the way to it. Whatever lies at the path already is
left alone. -/
def makeDirs (t : FileTree) (p : Path) : Except DiskFault FileTree :=
  if t.holds p then .ok t
  else if p.lineage.any t.isFile then .error .notDirectory
  else .ok (p.lineage.foldl addDir t)

/-- A tree with a file replaced as a whole, and with the directories on the way to it. -/
def write (t : FileTree) (p : Path) (text : Text) : Except DiskFault FileTree :=
  match t.makeDirs p.parent with
  | .error e => .error e
  | .ok t =>
    if t.isFile p.parent then .error .notDirectory
    else if t.node? p = some .dir then .error .isDirectory
    else .ok ⟨t.nodes.set p (.file text)⟩

/-- A tree without a path and what lies below it. -/
def remove (t : FileTree) (p : Path) : FileTree :=
  ⟨t.nodes.filter fun e ↦ !p.parts.isPrefixOf e.1.parts⟩

end FileTree

end Saltern
