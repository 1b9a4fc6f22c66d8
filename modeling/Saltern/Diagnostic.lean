import Saltern.Brinefile.Fault
import Saltern.Text.Count

/-!
# Diagnostics

What is said about an error: a message, a code, the section and line it belongs to, and a hint how
to mend it.
-/

namespace Saltern

/-- What went wrong, as far as a reader of the code needs to tell errors apart. -/
inductive ErrorKind
  | general
  | source
  | unknownSection
  | modifierCombination
  | invalidMode
  | malformedSymlink
  | malformedSysctl
  | malformedCronjob
  | emptyIdentity
  | invalidIdentity
  | conflictingIdentity
  | whole
  | missingIdentity
  | missingDescription
  | environment
  | sourceNotFound
  | configNotFound
  | invalidConfig
  | corruptPins
  | inconsistent
  deriving DecidableEq, Repr

/-- A family of errors: faults of a line of source, faults of a whole document, and trouble with
the files around it. -/
inductive ErrorFamily
  | source
  | whole
  | environment
  deriving DecidableEq, Repr

def ErrorKind.family? : ErrorKind → Option ErrorFamily
  | .source | .unknownSection | .modifierCombination | .invalidMode | .malformedSymlink
  | .malformedSysctl | .malformedCronjob | .emptyIdentity | .invalidIdentity
  | .conflictingIdentity => some .source
  | .whole | .missingIdentity | .missingDescription => some .whole
  | .environment | .sourceNotFound | .configNotFound | .invalidConfig | .corruptPins =>
    some .environment
  | .general | .inconsistent => none

/-- What is said about an error. -/
structure Diagnostic where
  kind : ErrorKind
  message : Text
  code : Text
  sectionName? : Option Text
  /-- The line it belongs to, as whoever made the diagnostic gives it. -/
  line? : Option Int
  suggestion? : Option Text
  deriving DecidableEq, Repr

namespace Diagnostic

/-- A text that says something. -/
def nonempty? : Option Text → Option Text
  | some [] => none
  | t => t

/-- Where the error is: a section, a line, or a line of a section. An empty section name and a line
zero say nothing. -/
def location? (d : Diagnostic) : Option Text :=
  let line := if d.line? = some 0 then none else d.line?
  match nonempty? d.sectionName?, line with
  | some s, some n => some ('%' :: s ++ " (line " ++ Text.integer n ++ ")")
  | some s, none => some ('%' :: s)
  | none, some n => some ("line " ++ Text.integer n)
  | none, none => none

/-- The report shown on a terminal. -/
def report (d : Diagnostic) : Text :=
  let place := match d.location? with
    | some w => w ++ ": "
    | none => []
  let hint := match nonempty? d.suggestion? with
    | some s => "\n  Suggestion: " ++ s
    | none => []
  "Error: " ++ place ++ d.message ++ hint

def quoted (t : Text) : Text := '"' :: t ++ ['"']

def unknownSection (keyword : Text) (line : Int) : Diagnostic where
  kind := .unknownSection
  message := "Unknown section " ++ quoted ('%' :: keyword) ++ "."
  code := "UNKNOWN_SECTION"
  sectionName? := none
  line? := line
  suggestion? := some "Check the spelling of the section marker."

def modifierCombination (message sectionName : Text) (line : Int) : Diagnostic where
  kind := .modifierCombination
  message := message
  code := "INVALID_MODIFIER_COMBINATION"
  sectionName? := sectionName
  line? := line
  suggestion? := some "Use \"-name\" to remove an item, or \"name=value\" to pin it, not both."

def invalidMode (mode sectionName : Text) (line : Int) : Diagnostic where
  kind := .invalidMode
  message := quoted mode ++ " is not an octal file mode."
  code := "INVALID_MODE"
  sectionName? := sectionName
  line? := line
  suggestion? := some "Use three or four octal digits, e.g. \"/etc/motd=0644\"."

def malformedSymlink (entry : Text) (line : Int) : Diagnostic where
  kind := .malformedSymlink
  message := quoted entry ++ " is not a symlink declaration."
  code := "MALFORMED_SYMLINK"
  sectionName? := some "symlinks"
  line? := line
  suggestion? := some "Use \"linkname->targetname\" to point your link to its target."

def malformedSysctl (entry : Text) (line : Int) (removal : Bool) : Diagnostic where
  kind := .malformedSysctl
  message :=
    quoted entry ++ if removal then " tries to remove a sysctl setting." else " does not have a value."
  code := "MALFORMED_SYSCTL"
  sectionName? := some "sysctl"
  line? := line
  suggestion? :=
    if removal then some "sysctl has no removal form; set the value you want instead."
    else some "Use \"setting=value\"."

def malformedCronjob (entry : Text) (line : Int) : Diagnostic where
  kind := .malformedCronjob
  message := quoted entry ++ " is not a crontab line."
  code := "MALFORMED_CRONJOB"
  sectionName? := some "cronjobs"
  line? := line
  suggestion? := some "Use \"minute hour day month weekday command\" or \"@daily command\"."

def emptyIdentity (sectionName : Text) (line : Int) : Diagnostic where
  kind := .emptyIdentity
  message := "Section has no name."
  code := "EMPTY_IDENTITY_SECTION"
  sectionName? := sectionName
  line? := line
  suggestion? := none

def invalidIdentity (message sectionName : Text) (line : Int) : Diagnostic where
  kind := .invalidIdentity
  message := message
  code := "INVALID_IDENTITY"
  sectionName? := sectionName
  line? := line
  suggestion? := some "Use a single dotted name such as \"queue.mq-service\"."

def conflictingIdentity (sectionName : Text) (line : Int) : Diagnostic where
  kind := .conflictingIdentity
  message := "A Brinefile declares exactly one %rolename or %elementname."
  code := "CONFLICTING_IDENTITY"
  sectionName? := sectionName
  line? := line
  suggestion? := none

def missingIdentity : Diagnostic where
  kind := .missingIdentity
  message := "Brinefile is missing required section. Choose one of: %rolename, %elementname"
  code := "MISSING_IDENTITY"
  sectionName? := none
  line? := none
  suggestion? := none

def missingDescription (line : Option Int) : Diagnostic where
  kind := .missingDescription
  message := "Brinefile is missing required section %description"
  code := "MISSING_DESCRIPTION"
  sectionName? := some "description"
  line? := line
  suggestion? := none

def sourceNotFound (path : Text) : Diagnostic where
  kind := .sourceNotFound
  message := "Brinefile not found: " ++ path
  code := "SOURCE_NOT_FOUND"
  sectionName? := none
  line? := none
  suggestion? := some "Run \"brine init\" to create one, or pass --file."

def configNotFound (path : Text) : Diagnostic where
  kind := .configNotFound
  message := "Config file not found: " ++ path
  code := "CONFIG_NOT_FOUND"
  sectionName? := none
  line? := none
  suggestion? := none

def invalidConfig (path problem : Text) : Diagnostic where
  kind := .invalidConfig
  message := "Invalid config " ++ path ++ ": " ++ problem
  code := "INVALID_CONFIG"
  sectionName? := none
  line? := none
  suggestion? := none

def corruptPins (path : Text) : Diagnostic where
  kind := .corruptPins
  message := "Version map " ++ path ++ " is not a valid version map."
  code := "CORRUPT_VERSION_MAP"
  sectionName? := none
  line? := none
  suggestion? := some "Fix or remove the file; brine will not overwrite entries it cannot read."

def inconsistent (message : Text) : Diagnostic where
  kind := .inconsistent
  message := message
  code := "INTERNAL_CONSISTENCY"
  sectionName? := none
  line? := none
  suggestion? := none

end Diagnostic

/-- What is said about a fault. -/
def Fault.diagnostic : Fault → Diagnostic
  | .unknownSection keyword line => .unknownSection keyword line
  | .removalWithValue entry target k line =>
    .modifierCombination
      (Diagnostic.quoted entry ++ " marks " ++ target ++ " absent and also gives it a value.") k.name line
  | .missingTarget entry kind k line =>
    .modifierCombination (Diagnostic.quoted entry ++ " has no " ++ kind.word ++ " name.") k.name line
  | .valueOnService entry k line =>
    .modifierCombination ("Services do not take a value (" ++ Diagnostic.quoted entry ++ ").") k.name line
  | .invalidMode mode k line => .invalidMode mode k.name line
  | .malformedSymlink entry line => .malformedSymlink entry line
  | .settingWithoutValue entry line => .malformedSysctl entry line false
  | .settingRemoval entry line => .malformedSysctl entry line true
  | .malformedCronjob entry line => .malformedCronjob entry line
  | .emptyIdentity k line => .emptyIdentity k.name line
  | .severalNames first second k line =>
    .invalidIdentity
      ("Section declares more than one name (" ++ Diagnostic.quoted first ++ ", " ++
        Diagnostic.quoted second ++ ").") k.name line
  | .notDotted name k line =>
    .invalidIdentity (Diagnostic.quoted name ++ " is not a dotted name.") k.name line
  | .conflictingIdentity k line => .conflictingIdentity k.name line
  | .missingIdentity => .missingIdentity
  | .missingDescription line => .missingDescription (line.map Int.ofNat)

end Saltern
