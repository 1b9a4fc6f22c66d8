import Saltern.Brinefile.Cron
import Saltern.Brinefile.Item
import Saltern.Brinefile.Link
import Saltern.Table

/-!
# Documents

What a Brinefile describes: a machine role or a reusable element, with everything that is to be
there or to be gone on the machine.
-/

namespace Saltern

/-- A whole machine role or one element of it. A document made by hand may carry another word; it
is treated as an element. -/
inductive DocumentKind
  | role
  | element
  | other (word : Text)
  deriving DecidableEq, Repr

namespace DocumentKind

def word : DocumentKind → Text
  | .role => "role"
  | .element => "element"
  | .other w => w

def ofWord (t : Text) : DocumentKind :=
  if t = "role".toList then .role else if t = "element".toList then .element else .other t

/-- The section that declares a document of this kind. -/
def sectionName (k : DocumentKind) : Text := if k = .role then "rolename" else "elementname"

end DocumentKind

/-- The kinds of managed items. An item made by hand may carry another word; no list takes it. -/
inductive ItemKind
  | package
  | file
  | directory
  | service
  | other (word : Text)
  deriving DecidableEq, Repr

namespace ItemKind

def word : ItemKind → Text
  | .package => "package"
  | .file => "file"
  | .directory => "directory"
  | .service => "service"
  | .other w => w

def ofWord (t : Text) : ItemKind :=
  if t = "package".toList then .package
  else if t = "file".toList then .file
  else if t = "directory".toList then .directory
  else if t = "service".toList then .service
  else .other t

end ItemKind

/-- Whether an item is to be there, and with which version or mode, or to be gone. -/
inductive ItemState
  | present (value : Option Text)
  | absent
  deriving DecidableEq, Repr

/-- A managed package, file, directory or service and the line that declares it. -/
structure Item where
  kind : ItemKind
  target : Text
  state : ItemState
  line : Nat
  deriving DecidableEq, Repr

/-- The value of an item that is to be there with one. -/
def Item.value? (i : Item) : Option Text :=
  match i.state with
  | .present v => v
  | .absent => none

/-- A declared symlink. -/
structure Symlink extends LinkLine where
  line : Nat
  deriving DecidableEq, Repr

/-- A shell command or the path of a script. -/
structure Executable where
  value : Text
  line : Nat
  deriving DecidableEq, Repr

/-- A declared cron job and its line as written, trimmed. -/
structure CronJob extends CronLine where
  raw : Text
  line : Nat
  deriving DecidableEq, Repr

/-- What one Brinefile describes. -/
structure Document where
  kind : DocumentKind
  name : Text
  description : Text
  readme : Option Text
  includes : List Text
  sysctl : Table Text Text
  packages : List Item
  files : List Item
  directories : List Item
  services : List Item
  symlinks : List Symlink
  commands : List Executable
  scripts : List Executable
  cronjobs : List CronJob

/-- Where the document stands in the state tree: its kind, then the parts of its dotted name. -/
def Document.statePath (kind : DocumentKind) (name : Text) : Text :=
  kind.word ++ '/' :: Text.joinWith ['/'] (Text.splitOn '.' name)

end Saltern
