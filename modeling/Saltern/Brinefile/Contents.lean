import Saltern.Brinefile.Section

/-!
# Contents of sections

How the lines of one section are read, section by section. A reading stops at the first line that
does not fit.
-/

namespace Saltern

/-- Whether a character may stand in a part of a dotted name. -/
def isNameChar (c : Char) : Bool := c.isAlphanum || c = '_' || c = '-'

/-- Whether a text is a dotted name: parts of letters, digits, underscores and hyphens. -/
def isDottedName (t : Text) : Bool :=
  (Text.splitOn '.' t).all fun part ↦ !part.isEmpty && part.all isNameChar

/-- Whether a text is three or four octal digits. -/
def isMode (t : Text) : Bool :=
  (t.length = 3 || t.length = 4) && t.all fun c ↦ '0' ≤ c && c ≤ '7'

namespace Section

/-- The one dotted name of an identity section. -/
def name (s : Section) : Except Fault Text :=
  match s.entries with
  | [] => .error (.emptyIdentity s.keyword s.line)
  | [l] =>
    if isDottedName l.content then .ok l.content
    else .error (.notDotted l.content s.keyword l.number)
  | first :: second :: _ =>
    .error (.severalNames first.content second.content s.keyword second.number)

/-- The entries of a section, one value a line. -/
def values (s : Section) : List Text := s.entries.map (·.content)

/-- The entries as one text. -/
def prose (s : Section) : Text := Text.joinWith ['\n'] s.values

/-- Every line as it stands, without the spaces and tabs at line ends and without the empty lines
at the edges. -/
def verbatim (s : Section) : Text :=
  Text.joinWith ['\n'] (Text.trimEmptyEdges (s.lines.map fun l ↦ Text.trimSpacesEnd l.raw))

def executables (s : Section) : List Executable := s.entries.map fun l ↦ ⟨l.content, l.number⟩

/-- Reads one item line of a section. -/
def item (keyword : Keyword) (kind : ItemKind) (l : Line) : Except Fault Item :=
  match ItemLine.ofText l.content with
  | .conflict target _ => .error (.removalWithValue l.content target keyword l.number)
  | .absent target =>
    if target.isEmpty then .error (.missingTarget l.content kind keyword l.number)
    else .ok ⟨kind, target, .absent, l.number⟩
  | .present target value =>
    if target.isEmpty then .error (.missingTarget l.content kind keyword l.number)
    else
      match value with
      | none => .ok ⟨kind, target, .present none, l.number⟩
      | some v =>
        if kind = .service then .error (.valueOnService l.content keyword l.number)
        else if (kind = .file ∨ kind = .directory) ∧ ¬ isMode v then
          .error (.invalidMode v keyword l.number)
        else .ok ⟨kind, target, .present (some v), l.number⟩

def items (s : Section) (kind : ItemKind) : Except Fault (List Item) :=
  s.entries.mapM (item s.keyword kind)

def symlink (l : Line) : Except Fault Symlink :=
  match LinkLine.ofText? l.content with
  | some link => .ok ⟨link, l.number⟩
  | none => .error (.malformedSymlink l.content l.number)

def symlinks (s : Section) : Except Fault (List Symlink) := s.entries.mapM symlink

/-- Reads one kernel setting. A setting cannot be removed. -/
def setting (l : Line) : Except Fault Setting :=
  match Setting.ofText? l.content with
  | none => .error (.settingWithoutValue l.content l.number)
  | some s =>
    if s.key.head? = some '-' then .error (.settingRemoval l.content l.number) else .ok s

def settings (s : Section) : Except Fault (List Setting) := s.entries.mapM setting

def cronjob (l : Line) : Except Fault CronJob :=
  match CronLine.ofText? l.content with
  | some job => .ok ⟨job, l.content, l.number⟩
  | none => .error (.malformedCronjob l.content l.number)

def cronjobs (s : Section) : Except Fault (List CronJob) := s.entries.mapM cronjob

end Section

/-- What one section adds to a document. -/
inductive Contents
  | identity (kind : DocumentKind) (name : Text)
  | description (text : Text)
  | readme (text : Text)
  | includes (states : List Text)
  | sysctl (settings : List Setting)
  | packages (items : List Item)
  | files (items : List Item)
  | directories (items : List Item)
  | services (items : List Item)
  | symlinks (links : List Symlink)
  | commands (commands : List Executable)
  | scripts (scripts : List Executable)
  | cronjobs (jobs : List CronJob)

/-- Reads a section by its keyword. -/
def Section.contents (s : Section) : Except Fault Contents :=
  match s.keyword with
  | .rolename => s.name.map (.identity .role)
  | .elementname => s.name.map (.identity .element)
  | .description => .ok (.description s.prose)
  | .readme => .ok (.readme s.verbatim)
  | .includes => .ok (.includes s.values)
  | .sysctl => s.settings.map .sysctl
  | .packages => (s.items .package).map .packages
  | .files => (s.items .file).map .files
  | .directories => (s.items .directory).map .directories
  | .services => (s.items .service).map .services
  | .symlinks => s.symlinks.map .symlinks
  | .commands => .ok (.commands s.executables)
  | .scripts => .ok (.scripts s.executables)
  | .cronjobs => s.cronjobs.map .cronjobs

end Saltern
