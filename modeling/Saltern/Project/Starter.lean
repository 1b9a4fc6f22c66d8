import Saltern.Brinefile.Contents
import Saltern.Files.Action
import Saltern.Project.Locate

/-!
# Starter Brinefiles

A new project starts with a Brinefile that has every section and declares nothing yet.
-/

namespace Saltern

namespace Starter

/-- The part of a starter that does not depend on what it is for. -/
def sections : Text :=
  "%packages
# nginx
# nginx=1.24.0   pin a version (per-environment pins: \"overrides\" in maps/versions.json)
# -telnet        remove a package

%files
# /etc/motd      template in files/etc/motd.jinja
# /etc/app.conf=0600

%directories

%symlinks
# /usr/local/bin/app->/opt/app/bin/app

%services

%commands

%scripts

%cronjobs
# */5 * * * * /usr/local/bin/cleanup
"

/-- A starter Brinefile for a role or element. -/
def text (kind : DocumentKind) (name : Text) : Text :=
  "# Brinefile for " ++ name ++
    "\n# Run \"brine\" in this directory to regenerate the Salt state.\n\n%" ++ kind.sectionName ++
    '\n' :: name ++ "\n\n%description\nDescribe what this " ++ kind.word ++ " sets up.\n\n" ++ sections

end Starter

/-- What is asked of a new Brinefile. -/
structure StarterRequest where
  element : Bool
  /-- The name, if not that of the directory. -/
  name : Option Text
  /-- Whether a file that is there already is to be replaced. -/
  force : Bool
  configFile : Option Text
  deriving DecidableEq, Repr

namespace StarterRequest

def kind (q : StarterRequest) : DocumentKind := if q.element then .element else .role

/-- The name that the new Brinefile declares. -/
def chosenName (q : StarterRequest) (root : Path) : Text := q.name.getD root.name

def request (q : StarterRequest) : Request := ⟨none, q.configFile, false⟩

end StarterRequest

/-- A Brinefile's path, and whether it was written. -/
structure Started where
  path : Path
  written : Bool
  deriving DecidableEq

namespace Project

/-- Where the starter goes; its name must be a dotted one. -/
def starterPath (root : Path) (q : StarterRequest) : Action Failure Path := do
  let (_, c) ← loadConfig root q.request
  if isDottedName (q.chosenName root) then return root.resolve c.sourceFile
  else .look fun _ ↦ .fail (.invalidName q.kind (q.chosenName root))

/-- Writes a starter Brinefile. One that is there already stays unless it is to be replaced. -/
def start (root : Path) (q : StarterRequest) : Action Failure Started := do
  let path ← starterPath root q
  let there ← .look fun t ↦ .ok (t.holds path)
  if there && !q.force then
    .tell .starter .info
      ("Brinefile already exists at " ++ path.text ++ " (use --force to overwrite).")
    return ⟨path, false⟩
  else
    .change .disk (·.write path (Starter.text q.kind (q.chosenName root)))
    .tell .starter .info ((if there then "Overwrote " else "Created ") ++ path.text)
    return ⟨path, true⟩

end Project

end Saltern
