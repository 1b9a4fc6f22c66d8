import Saltern.Pins.Basic
import Saltern.Salt.Concern
import Saltern.Salt.Slug
import Saltern.Salt.Stanza
import Saltern.Text.Count
import Saltern.Yaml.Scalar

/-!
# Declarations

What a document says about one concern, as states that still want an id. A declaration depends on
its own entry and on the setting of the manifest, and on nothing else.
-/

namespace Saltern

/-- Who owns files, directories and links. -/
structure Owner where
  user : Text
  group : Text
  deriving DecidableEq, Repr

/-- What a manifest needs to know beside the document. -/
structure ManifestOptions where
  filesDir : Text
  mapsDir : Text
  owner : Owner
  cronUser : Text
  deriving DecidableEq, Repr

/-- The setting of a manifest's states: the document's name and place, and the options. -/
structure Setup where
  name : Text
  statePath : Text
  options : ManifestOptions

/-- A state and the id it would like to have. -/
structure Declaration where
  wanted : Text
  function : Text
  params : List (Text × Text)
  deriving DecidableEq, Repr

/-- An item in a list of another kind. -/
structure Misfiled where
  item : Item
  expected : ItemKind
  deriving DecidableEq, Repr

def Misfiled.message (m : Misfiled) : Text :=
  m.item.kind.word ++ " \"" ++ m.item.target ++ "\" (line " ++ Text.numeral m.item.line ++
    ") is filed under " ++ m.expected.word ++ " items."

/-- A parameter of a state. -/
def param (key value : Text) : Text × Text := (key, value)

namespace Setup

/-- The id wanted for a thing of a document: both slugs and what kind of state it is. -/
def wantedId (s : Setup) (thing kind : Text) : Text :=
  slug s.name ++ '_' :: slug thing ++ '_' :: kind

/-- The id wanted for a thing that something is done to. -/
def wantedActionId (s : Setup) (action thing kind : Text) : Text :=
  action ++ '_' :: s.wantedId thing kind

def ownership (s : Setup) : List (Text × Text) :=
  [param "user" (Yaml.scalar s.options.owner.user), param "group" (Yaml.scalar s.options.owner.group)]

/-- The lookup of a package's version; quotes in its key are escaped. -/
def versionLookup (s : Setup) (package : Text) : Text :=
  "\x7b\x7b versions['" ++ Text.replaceChar '\'' ['\\', '\''] (pinKey s.name package) ++ "'] \x7d\x7d"

/-- Where the template of a managed file lies. -/
def fileSource (s : Setup) (target : Text) : Text :=
  "salt://" ++ s.statePath ++ ['/'] ++ s.options.filesDir ++
    (if target.head? = some '/' then [] else ['/']) ++ target ++ ".jinja"

def package (s : Setup) (target : Text) : ItemState → Declaration
  | .absent =>
    ⟨s.wantedActionId "remove" target "pkg", "pkg.removed", [param "name" (Yaml.scalar target)]⟩
  | .present none => ⟨s.wantedId target "pkg", "pkg.installed", [param "name" (Yaml.scalar target)]⟩
  | .present (some _) =>
    ⟨s.wantedId target "pkg", "pkg.installed",
      [param "name" (Yaml.scalar target), param "version" (s.versionLookup target), param "refresh" "True"]⟩

def file (s : Setup) (target : Text) : ItemState → Declaration
  | .absent =>
    ⟨s.wantedActionId "remove" target "file", "file.absent", [param "name" (Yaml.scalar target)]⟩
  | .present mode =>
    ⟨s.wantedId target "file", "file.managed",
      [param "name" (Yaml.scalar target), param "source" (Yaml.scalar (s.fileSource target)),
        param "template" "jinja", param "makedirs" "True",
        param "mode" (Yaml.quote (mode.getD "0644"))] ++ s.ownership⟩

def directory (s : Setup) (target : Text) : ItemState → Declaration
  | .absent =>
    ⟨s.wantedActionId "remove" target "dir", "file.absent", [param "name" (Yaml.scalar target)]⟩
  | .present mode =>
    ⟨s.wantedId target "dir", "file.directory",
      [param "name" (Yaml.scalar target), param "makedirs" "True",
        param "mode" (Yaml.quote (mode.getD "0755"))] ++ s.ownership⟩

def service (s : Setup) (target : Text) : ItemState → Declaration
  | .absent =>
    ⟨s.wantedActionId "stop" target "svc", "service.dead",
      [param "name" (Yaml.scalar target), param "enable" "False"]⟩
  | .present _ =>
    ⟨s.wantedId target "svc", "service.running",
      [param "name" (Yaml.scalar target), param "enable" "True"]⟩

def symlink (s : Setup) (l : LinkLine) : Declaration :=
  match l.presence with
  | .absent =>
    ⟨s.wantedActionId "remove" l.linkPath "link", "file.absent",
      [param "name" (Yaml.scalar l.linkPath)]⟩
  | .present =>
    ⟨s.wantedId l.linkPath "link", "file.symlink",
      [param "name" (Yaml.scalar l.linkPath), param "target" (Yaml.scalar l.targetPath), param "force" "True",
        param "makedirs" "True"] ++ s.ownership⟩

def setting (s : Setup) (key value : Text) : Declaration :=
  ⟨s.wantedId key "sysctl", "sysctl.present",
    [param "name" (Yaml.scalar key), param "value" (Yaml.scalar value), param "config" "/etc/sysctl.conf"]⟩

/-- A command is known by its first word. -/
def command (s : Setup) (c : Text) : Declaration :=
  ⟨s.wantedActionId "run" (c.takeWhile (!Text.isBlank ·)) "cmd", "cmd.run",
    [param "name" (Yaml.scalar c)]⟩

def script (s : Setup) (path : Text) : Declaration :=
  ⟨s.wantedActionId "run" path "script", "cmd.script", [param "name" (Yaml.scalar path)]⟩

def scheduleParams : Schedule → List (Text × Text)
  | .special name => [param "special" (Yaml.quote name)]
  | .fields minute hour dayOfMonth month dayOfWeek =>
    [param "minute" (Yaml.quote minute), param "hour" (Yaml.quote hour), param "daymonth" (Yaml.quote dayOfMonth),
      param "month" (Yaml.quote month), param "dayweek" (Yaml.quote dayOfWeek)]

def cronjob (s : Setup) (c : CronLine) : Declaration :=
  ⟨s.wantedId c.command "cronjob", "cron.present",
    [param "name" (Yaml.scalar c.command), param "user" (Yaml.scalar s.options.cronUser)] ++
      scheduleParams c.schedule⟩

/-- The declarations of a list of items of one kind. -/
def items (kind : ItemKind) (declare : Text → ItemState → Declaration) (is : List Item) :
    Except Misfiled (List Declaration) :=
  is.mapM fun i ↦ if i.kind = kind then .ok (declare i.target i.state) else .error ⟨i, kind⟩

/-- What a document declares about a concern. Includes are no states. -/
def declarations (s : Setup) (d : Document) : Concern → Except Misfiled (List Declaration)
  | .includes => .ok []
  | .sysctl => .ok (d.sysctl.entries.map fun e ↦ s.setting e.1 e.2)
  | .packages => items .package s.package d.packages
  | .files => items .file s.file d.files
  | .directories => items .directory s.directory d.directories
  | .symlinks => .ok (d.symlinks.map fun l ↦ s.symlink l.toLinkLine)
  | .services => items .service s.service d.services
  | .commands => .ok (d.commands.map fun c ↦ s.command c.value)
  | .scripts => .ok (d.scripts.map fun c ↦ s.script c.value)
  | .cronjobs => .ok (d.cronjobs.map fun c ↦ s.cronjob c.toCronLine)

end Setup

end Saltern
