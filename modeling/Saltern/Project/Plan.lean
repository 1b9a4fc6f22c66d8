import Saltern.Document.Readme
import Saltern.Files.Action
import Saltern.Pins.Load
import Saltern.Pins.Lookup
import Saltern.Salt.Manifest

/-!
# Plans

What is to be written for a document, worked out in full before anything is written. Pins of other
documents are read from the store and kept.
-/

namespace Saltern

/-- The files that are made from a Brinefile, and the Brinefile itself. -/
inductive ArtifactKind
  | manifest
  | readme
  | pinStore
  | pinLookup
  | source
  deriving DecidableEq, Repr

/-- A file to be written. -/
structure Artifact where
  kind : ArtifactKind
  path : Path
  text : Text
  deriving DecidableEq

/-- What is to be written, below which directory, and for what. -/
structure Plan where
  root : Path
  directories : List Path
  files : List Artifact
  blocks : List Block
  /-- The pins that the document itself declares. -/
  pins : Pins

/-- Where a configured path leads; it must not leave the project. -/
def Path.within (root : Path) (t : Text) : Report Failure Path :=
  .ofExcept .outside (root.resolveWithin t)

namespace Document

/-- The files of a document without pins. -/
def baseFiles (d : Document) (blocks : List Block) (manifest readme : Path) : List Artifact :=
  [⟨.manifest, manifest, manifestText (blocks.map (·.text))⟩, ⟨.readme, readme, d.readmeText⟩]

/-- The files that keep the pins: the store, and the lookup that is made from it. -/
def pinFiles (s : PinStore) (e : Environments) (maps : Path) : List Artifact :=
  [⟨.pinStore, maps.resolve PinStore.fileName, s.text⟩,
    ⟨.pinLookup, maps.resolve lookupFile, Lookup.text s.pins.sorted e s.overrides⟩]

/-- What is to be written for a document. -/
def plan (d : Document) (root : Path) (c : Config) (t : FileTree) : Report Failure Plan := do
  let blocks ← .ofExcept .misfiled (d.blocks c.manifestOptions)
  let manifest ← root.within c.manifestFile
  let readme ← root.within c.readmeFile
  let files ← root.within c.filesDir
  if d.pins.isEmpty then
    return ⟨root, [files], d.baseFiles blocks manifest readme, blocks, d.pins⟩
  else
    let maps ← root.within c.mapsDir
    let store ← PinStore.load (maps.resolve PinStore.fileName) t
    let store := store.merge d.pins.entries
    return ⟨root, [files, maps],
      d.baseFiles blocks manifest readme ++ pinFiles store c.environments maps, blocks, d.pins⟩

end Document

namespace Plan

/-- Makes one of the directories. -/
def makeDirectory (p : Plan) (speaker : Speaker) (dir : Path) : Action Failure Unit := do
  .change .disk (·.makeDirs dir)
  .tell speaker .debug ("ensured " ++ p.root.relative dir ++ ['/'])

/-- Writes one of the files. -/
def writeFile (p : Plan) (speaker : Speaker) (a : Artifact) : Action Failure Unit := do
  .change .disk (·.write a.path a.text)
  .tell speaker .debug ("wrote " ++ p.root.relative a.path)

/-- Makes the directories and writes the files, each in order. -/
def write (p : Plan) (speaker : Speaker) : Action Failure Unit := do
  p.directories.forM (p.makeDirectory speaker)
  p.files.forM (p.writeFile speaker)
  .tell speaker .info ("wrote " ++ Text.countedRegular "file" p.files.length)

end Plan

end Saltern
