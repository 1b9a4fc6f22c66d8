import Saltern.Document.Basic
import Saltern.Text.Count

/-!
# What is told about a document

The README of a role or element, and the one-line summary.
-/

namespace Saltern.Document

/-- The readme text, if there is one that says something. -/
def readmePart (d : Document) : List Text :=
  match d.readme with
  | none | some [] => []
  | some t => [t]

/-- The closing line of a README. -/
def footer : Text :=
  "_Generated from the Brinefile by brine. Edit the Brinefile and re-run brine instead of this file._"

/-- The README file: the name as a heading, the kind, the description and the readme text. -/
def readmeText (d : Document) : Text :=
  Text.joinWith ['\n', '\n']
    (("# " ++ d.name) :: (if d.kind = .role then "_Role_" else "_Element_") :: d.description ::
      d.readmePart ++ [footer]) ++
    ['\n']

/-- How many things of each sort a document declares. -/
def counts (d : Document) : List (Text × Text × Nat) :=
  [("include", "includes", d.includes.length),
    ("sysctl setting", "sysctl settings", d.sysctl.size),
    ("package", "packages", d.packages.length),
    ("file", "files", d.files.length),
    ("directory", "directories", d.directories.length),
    ("symlink", "symlinks", d.symlinks.length),
    ("service", "services", d.services.length),
    ("command", "commands", d.commands.length),
    ("script", "scripts", d.scripts.length),
    ("cronjob", "cronjobs", d.cronjobs.length)]

/-- One line about a document: what it is and how many things of each sort it declares. -/
def summary (d : Document) : Text :=
  let parts := d.counts.filterMap fun (singular, plural, n) ↦
    if n = 0 then none else some (Text.counted singular plural n)
  let listed : Text := if parts.isEmpty then "nothing to manage" else Text.joinWith ", " parts
  d.kind.word ++ " " ++ d.name ++ ": " ++ listed

end Saltern.Document
