import Saltern.Text.Blank
import Saltern.Text.LowerCase

/-!
# Section keywords
-/

namespace Saltern

/-- The sections a Brinefile is made of. -/
inductive Keyword
  | rolename
  | elementname
  | description
  | readme
  | includes
  | sysctl
  | packages
  | files
  | directories
  | symlinks
  | services
  | commands
  | scripts
  | cronjobs
  deriving DecidableEq, Repr

namespace Keyword

def all : List Keyword :=
  [.rolename, .elementname, .description, .readme, .includes, .sysctl, .packages, .files,
    .directories, .symlinks, .services, .commands, .scripts, .cronjobs]

/-- A keyword as it is spelled after the percent sign. -/
def name : Keyword → Text
  | .rolename => "rolename"
  | .elementname => "elementname"
  | .description => "description"
  | .readme => "readme"
  | .includes => "includes"
  | .sysctl => "sysctl"
  | .packages => "packages"
  | .files => "files"
  | .directories => "directories"
  | .symlinks => "symlinks"
  | .services => "services"
  | .commands => "commands"
  | .scripts => "scripts"
  | .cronjobs => "cronjobs"

/-- The keyword with a given spelling. -/
def ofName? (t : Text) : Option Keyword := all.find? (·.name = t)

/-- What a marker line names: the text after its first character, trimmed and in lower case. -/
def spelledBy (content : Text) : Text := Text.lower (Text.trim (content.drop 1))

theorem mem_all (k : Keyword) : k ∈ all := by cases k <;> decide

theorem ofName?_name (k : Keyword) : ofName? k.name = some k := by cases k <;> rfl

theorem name_of_ofName? {t : Text} {k : Keyword} (h : ofName? t = some k) : k.name = t := by
  simpa using List.find?_some h

/-- A spelled keyword is in lower case already. -/
theorem spelledBy_cons_name (k : Keyword) : spelledBy ('%' :: k.name) = k.name := by
  cases k <;> decide

end Keyword

end Saltern
