import Saltern.Brinefile.Contents

/-!
# Reading a document

The sections are read in their order and put together by keyword: sections of one keyword add up
in the order in which they stand. There is one identity, and a description that says something.
-/

namespace Saltern

/-- Whether a section declares the document's kind and name. -/
def Keyword.isIdentity (k : Keyword) : Bool := k = .rolename || k = .elementname

namespace Document

/-- The contents of all sections, up to the first fault. A second identity section is a fault
whatever it holds. -/
def readSections (named : Bool) : List Section → Except Fault (List Contents)
  | [] => .ok []
  | s :: rest =>
    if s.keyword.isIdentity && named then .error (.conflictingIdentity s.keyword s.line)
    else
      match s.contents with
      | .error e => .error e
      | .ok c =>
        match readSections (named || s.keyword.isIdentity) rest with
        | .error e => .error e
        | .ok cs => .ok (c :: cs)

/-- The declared kind and name. -/
def identity? (cs : List Contents) : Option (DocumentKind × Text) :=
  cs.findSome? fun | .identity kind name => some (kind, name) | _ => none

/-- The texts of the description sections that say something. -/
def descriptions (cs : List Contents) : List Text :=
  cs.filterMap fun | .description t => if t.isEmpty then none else some t | _ => none

/-- The texts of the readme sections that say something. -/
def readmes (cs : List Contents) : List Text :=
  cs.filterMap fun | .readme t => if t.isEmpty then none else some t | _ => none

/-- A document of the given identity and description with all that the contents declare. -/
def gather (kind : DocumentKind) (name description : Text) (cs : List Contents) : Document where
  kind := kind
  name := name
  description := description
  readme := if (readmes cs).isEmpty then none else some (Text.joinWith ['\n', '\n'] (readmes cs))
  includes := cs.flatMap fun | .includes xs => xs | _ => []
  sysctl := .ofList ((cs.flatMap fun | .sysctl xs => xs | _ => []).map fun s ↦ (s.key, s.value))
  packages := cs.flatMap fun | .packages xs => xs | _ => []
  files := cs.flatMap fun | .files xs => xs | _ => []
  directories := cs.flatMap fun | .directories xs => xs | _ => []
  services := cs.flatMap fun | .services xs => xs | _ => []
  symlinks := cs.flatMap fun | .symlinks xs => xs | _ => []
  commands := cs.flatMap fun | .commands xs => xs | _ => []
  scripts := cs.flatMap fun | .scripts xs => xs | _ => []
  cronjobs := cs.flatMap fun | .cronjobs xs => xs | _ => []

/-- The number of the first description marker. -/
def descriptionLine (ss : List Section) : Option Nat :=
  (ss.find? (·.keyword = .description)).map (·.line)

/-- The document that some sections describe, or the first fault among them. -/
def ofSections (ss : List Section) : Except Fault Document :=
  match readSections false ss with
  | .error e => .error e
  | .ok cs =>
    match identity? cs with
    | none => .error .missingIdentity
    | some (kind, name) =>
      let description := Text.joinWith ['\n'] (descriptions cs)
      if (Text.trim description).isEmpty then .error (.missingDescription (descriptionLine ss))
      else .ok (gather kind name description cs)

/-- The document that a text describes, or its first fault. -/
def ofText (t : Text) : Except Fault Document :=
  match Brinefile.ofText t with
  | .error e => .error e
  | .ok b => ofSections b.sections

end Document

end Saltern
