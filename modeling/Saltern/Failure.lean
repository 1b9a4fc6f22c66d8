import Saltern.Config.Reading
import Saltern.Diagnostic
import Saltern.Files.Tree
import Saltern.Salt.Declaration

/-!
# Failures

The reasons for which the program gives up. Some have a diagnostic; a path that leaves the project
and a refusal of the operating system have not.
-/

namespace Saltern

inductive Failure
  | fault (f : Fault)
  | misfiled (m : Misfiled)
  | sourceNotFound (path : Path)
  | configNotFound (path : Path)
  | invalidConfig (path : Path) (problem : SettingsFault)
  | corruptPins (path : Path)
  | invalidName (kind : DocumentKind) (name : Text)
  | outside (o : Outside)
  | disk (d : DiskFault)
  deriving DecidableEq

namespace Failure

/-- What is said about a failure, if it is one that a user can mend by looking at the source or the
files around it. -/
def diagnostic? : Failure → Option Diagnostic
  | .fault f => some f.diagnostic
  | .misfiled m => some (.inconsistent m.message)
  | .sourceNotFound p => some (.sourceNotFound p.text)
  | .configNotFound p => some (.configNotFound p.text)
  | .invalidConfig p problem => some (.invalidConfig p.text problem.message)
  | .corruptPins p => some (.corruptPins p.text)
  | .invalidName k name =>
    some (.invalidIdentity (Diagnostic.quoted name ++ " is not a valid state name.") k.sectionName 1)
  | .outside _ | .disk _ => none

/-- A failure as it is logged. -/
def message (f : Failure) : Text :=
  match f with
  | .outside o => o.message
  | .disk d => d.code
  | _ => (f.diagnostic?.map (·.message)).getD []

end Failure

end Saltern
