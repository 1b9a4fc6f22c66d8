import Saltern.Text.Basic

/-!
# Concerns

A manifest is divided by what its states are about.
-/

namespace Saltern

/-- What a part of a manifest is about. -/
inductive Concern
  | includes
  | sysctl
  | packages
  | files
  | directories
  | symlinks
  | services
  | commands
  | scripts
  | cronjobs
  deriving DecidableEq, Repr

namespace Concern

/-- The concerns in the order in which a manifest treats them. -/
def order : List Concern :=
  [.includes, .sysctl, .packages, .files, .directories, .symlinks, .services, .commands, .scripts,
    .cronjobs]

def name : Concern → Text
  | .includes => "includes"
  | .sysctl => "sysctl"
  | .packages => "packages"
  | .files => "files"
  | .directories => "directories"
  | .symlinks => "symlinks"
  | .services => "services"
  | .commands => "commands"
  | .scripts => "scripts"
  | .cronjobs => "cronjobs"

/-- The name in capitals. -/
def title : Concern → Text
  | .includes => "INCLUDES"
  | .sysctl => "SYSCTL"
  | .packages => "PACKAGES"
  | .files => "FILES"
  | .directories => "DIRECTORIES"
  | .symlinks => "SYMLINKS"
  | .services => "SERVICES"
  | .commands => "COMMANDS"
  | .scripts => "SCRIPTS"
  | .cronjobs => "CRONJOBS"

/-- Where the state functions are documented. -/
def reference : Concern → Text
  | .includes => "https://docs.saltproject.io/en/latest/ref/states/include.html"
  | .sysctl => "https://docs.saltproject.io/en/latest/ref/states/all/salt.states.sysctl.html"
  | .packages => "https://docs.saltproject.io/en/latest/ref/states/all/salt.states.pkg.html"
  | .files => "https://docs.saltproject.io/en/latest/ref/states/all/salt.states.file.html"
  | .directories => "https://docs.saltproject.io/en/latest/ref/states/all/salt.states.file.html"
  | .symlinks => "https://docs.saltproject.io/en/latest/ref/states/all/salt.states.file.html"
  | .services => "https://docs.saltproject.io/en/latest/ref/states/all/salt.states.service.html"
  | .commands => "https://docs.saltproject.io/en/latest/ref/states/all/salt.states.cmd.html"
  | .scripts => "https://docs.saltproject.io/en/latest/ref/states/all/salt.states.cmd.html"
  | .cronjobs => "https://docs.saltproject.io/en/latest/ref/states/all/salt.states.cron.html"

def ofName? (t : Text) : Option Concern := order.find? (·.name = t)

/-- The comment that opens a concern's part of the manifest. -/
def banner (c : Concern) : Text :=
  Text.joinWith ['\n'] ["##", "##  " ++ c.title, "##    " ++ c.reference]

theorem mem_order (c : Concern) : c ∈ order := by cases c <;> decide

end Concern

end Saltern
