import Saltern.Config.Export
import Saltern.Failure
import Saltern.Files.Action
import Saltern.Text.LowerCase

/-!
# Finding configuration and source

A project is a directory. Its configuration file is the one asked for, or else the first of the
usual names that is there, or none; its source file is the one asked for, or else the configured
one. Configuration files are modules: most of them are loaded only once.
-/

namespace Saltern

/-- What is asked of a project beside its directory. -/
structure Request where
  sourceFile : Option Text
  configFile : Option Text
  /-- Whether the source is to be put into canonical layout, whatever is configured. -/
  format : Bool
  deriving DecidableEq, Repr

namespace Request

/-- Nothing special. -/
def plain : Request := ⟨none, none, false⟩

/-- The configuration file asked for. An empty text asks for none. -/
def configFile? (q : Request) (root : Path) : Option Path :=
  (Diagnostic.nonempty? q.configFile).map root.resolve

/-- The source file of a project with a given configuration. -/
def sourcePath (q : Request) (root : Path) (c : Config) : Path :=
  root.resolve (q.sourceFile.getD c.sourceFile)

end Request

/-- The usual names of configuration files, the first that is there counts. -/
def Config.fileNames : List Text :=
  ["brine.config.ts", "brine.config.mts", "brine.config.mjs", "brine.config.js", "brine.config.cjs"]

/-- The configuration file of a directory that has one under a usual name. -/
def FileTree.configFile? (t : FileTree) (root : Path) : Option Path :=
  (Config.fileNames.map root.resolve).find? t.holds

namespace Project

/-- The configuration file that counts, if any. One that is asked for must be there. -/
def configFile (root : Path) (q : Request) (t : FileTree) : Except Failure (Option Path) :=
  match q.configFile? root with
  | some p => if t.holds p then .ok (some p) else .error (.configNotFound p)
  | none => .ok (t.configFile? root)

/-- The first part of every task: look for the configuration file. -/
def search (root : Path) (q : Request) (t : FileTree) : Report Failure (Option Path) := do
  let found ← .ofExcept id (configFile root q t)
  if found.isNone then
    .tell .config .debug ("No brine.config.* in " ++ root.text ++ ", using defaults")
  return found

/-- The endings of configuration files that are compiled before they are loaded. -/
def compiledEndings : List Text := [".ts", ".mts"]

/-- The refusal to load what is no file. -/
def loadFault : DiskFault → DiskFault
  | .isDirectory => .directoryLoad
  | d => d

/-- The text of a configuration file. A file that is compiled is read anew every time; any other is
loaded once, and what it was then counts for as long as the program runs. -/
def configText (p : Path) : Action Failure Text :=
  if compiledEndings.contains (Text.asciiLower p.ending) then
    .look fun t ↦ .ofExcept .disk (t.read p)
  else .readOnce (.disk ∘ loadFault) p

/-- The configuration in a file. -/
def readConfig (p : Path) : Action Failure Config := do
  let text ← configText p
  .look fun _ ↦ .ofExcept (.invalidConfig p) (Config.ofText text)

/-- The configuration of a project whose configuration file is known. -/
def config (found : Option Path) : Action Failure Config :=
  match found with
  | none => pure .default
  | some p => do
    let c ← readConfig p
    .tell .config .debug ("Loaded config from " ++ p.text)
    return c

/-- The configuration of a project. -/
def loadConfig (root : Path) (q : Request) : Action Failure (Option Path × Config) := do
  let found ← .look (search root q)
  let c ← config found
  return (found, c)

/-- The text of a source file. -/
def readSource (p : Path) (t : FileTree) : Except Failure Text :=
  match t.read p with
  | .error .noEntry => .error (.sourceNotFound p)
  | .error d => .error (.disk d)
  | .ok text => .ok text

/-- A source file that was read, and the configuration it is read under. -/
structure Source where
  config : Config
  path : Path
  text : Text

/-- The source of a project whose configuration is known. -/
def source (root : Path) (q : Request) (c : Config) (t : FileTree) : Report Failure Source := do
  let path := q.sourcePath root c
  let text ← .ofExcept id (readSource path t)
  return ⟨c, path, text⟩

/-- The source of a project. -/
def loadSource (root : Path) (q : Request) : Action Failure Source := do
  let (_, c) ← loadConfig root q
  .look (source root q c)

end Project

end Saltern
