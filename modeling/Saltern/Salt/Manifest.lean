import Saltern.Salt.Declaration
import Saltern.Salt.StateId

/-!
# Manifests

A manifest opens with a header and goes on, concern by concern, with one stanza for each thing that
a document declares. Ids are handed out in the order of the stanzas.
-/

namespace Saltern

/-- A part of a manifest: the header, or what is about one concern. -/
structure Block where
  concern? : Option Concern
  text : Text
  deriving DecidableEq, Repr

/-- The name of a block's part. -/
def Block.name (b : Block) : Text :=
  match b.concern? with
  | none => "header"
  | some c => c.name

/-- The file that the lookup of the pins is imported from. -/
def lookupFile : Text := "versions.map.jinja"

namespace Document

/-- The import of the pins' lookup, after an empty line; none for a document without pins. -/
def importLines (s : Setup) (d : Document) : List Text :=
  if d.isPinned then
    [[], "\x7b% from \"" ++ s.statePath ++ '/' :: s.options.mapsDir ++ '/' :: lookupFile ++
      "\" import versions with context %\x7d"]
  else []

/-- The lines that name and describe the document, and the import of its pins. -/
def headerLines (s : Setup) (d : Document) : List Text :=
  ['#'] :: ("# " ++ d.name) :: ['#'] ::
    ((Text.splitOn '\n' d.description).map fun l ↦ "#   " ++ l) ++ ['#'] :: d.importLines s

/-- The list of included states. -/
def includeChunks (d : Document) : List Text :=
  if d.includes.isEmpty then []
  else [Text.joinWith ['\n'] ("include:" :: d.includes.map fun i ↦ "  - " ++ i)]

/-- Declarations with their ids. -/
def stanzas (ids : StateIds) (ds : List Declaration) : List Stanza × StateIds :=
  let (got, ids) := ids.claimAll (ds.map (·.wanted))
  (List.zipWith (fun id d ↦ ⟨id, d.function, d.params⟩) got ds, ids)

/-- The texts that make up a concern's part, in the order of the document. -/
def chunks (s : Setup) (d : Document) (ids : StateIds) (c : Concern) :
    Except Misfiled (List Text × StateIds) :=
  if c = .includes then .ok (d.includeChunks, ids)
  else
    match s.declarations d c with
    | .error e => .error e
    | .ok ds =>
      let (ss, ids) := stanzas ids ds
      .ok (ss.map Stanza.text, ids)

/-- The blocks of some concerns. A concern with nothing to tell has none. -/
def blocksOf (s : Setup) (d : Document) (ids : StateIds) : List Concern → Except Misfiled (List Block)
  | [] => .ok []
  | c :: rest =>
    match d.chunks s ids c with
    | .error e => .error e
    | .ok (texts, ids) =>
      match d.blocksOf s ids rest with
      | .error e => .error e
      | .ok bs =>
        if texts.isEmpty then .ok bs
        else .ok (⟨some c, Text.joinWith ['\n', '\n'] (c.banner :: texts)⟩ :: bs)

def setup (d : Document) (o : ManifestOptions) : Setup :=
  ⟨d.name, statePath d.kind d.name, o⟩

/-- The blocks of a document's manifest. An item in a list of another kind stands in the way. -/
def blocks (d : Document) (o : ManifestOptions) : Except Misfiled (List Block) :=
  let s := d.setup o
  match d.blocksOf s .fresh Concern.order with
  | .error e => .error e
  | .ok bs => .ok (⟨none, Text.joinWith ['\n'] (d.headerLines s)⟩ :: bs)

end Document

/-- The text of a manifest: its parts with one empty line between neighbours. -/
def manifestText (texts : List Text) : Text := Text.joinWith ['\n', '\n'] texts ++ ['\n']

/-- The text of a document's manifest. -/
def Document.manifest (d : Document) (o : ManifestOptions) : Except Misfiled Text :=
  (d.blocks o).map fun bs ↦ manifestText (bs.map (·.text))

end Saltern
