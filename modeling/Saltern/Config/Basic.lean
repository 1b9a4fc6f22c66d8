import Saltern.Salt.Declaration

/-!
# Configuration

What a project may set, and what holds after the defaults are filled in.
-/

namespace Saltern

/-- The environments of the pins' lookup. -/
structure Environments where
  names : List Text
  /-- The grain that tells a machine's environment. -/
  grain : Text
  /-- The environment of a machine without that grain. -/
  fallback : Text
  deriving DecidableEq, Repr

/-- A configuration with nothing left open. -/
structure Config where
  sourceFile : Text
  manifestFile : Text
  readmeFile : Text
  filesDir : Text
  mapsDir : Text
  owner : Owner
  cronUser : Text
  environments : Environments
  formatEnabled : Bool
  deriving DecidableEq, Repr

namespace Config

def default : Config where
  sourceFile := "Brinefile"
  manifestFile := "init.sls"
  readmeFile := "README.md"
  filesDir := "files"
  mapsDir := "maps"
  owner := ⟨"root", "root"⟩
  cronUser := "root"
  environments := ⟨["dev", "devint", "qa", "staging", "prod"], "environment", "prod"⟩
  formatEnabled := false

/-- What a manifest needs to know of a configuration. -/
def manifestOptions (c : Config) : ManifestOptions := ⟨c.filesDir, c.mapsDir, c.owner, c.cronUser⟩

end Config

/-- Settings of the owner, where given. -/
structure OwnerSettings where
  user : Option Text
  group : Option Text
  deriving DecidableEq, Repr

/-- Settings of the environments, where given. -/
structure EnvironmentSettings where
  names : Option (List Text)
  grain : Option Text
  fallback : Option Text
  deriving DecidableEq, Repr

/-- Settings of formatting, where given. -/
structure FormatSettings where
  enabled : Option Bool
  deriving DecidableEq, Repr

/-- The settings that a project gives. -/
structure Settings where
  sourceFile : Option Text
  manifestFile : Option Text
  readmeFile : Option Text
  filesDir : Option Text
  mapsDir : Option Text
  cronUser : Option Text
  owner : Option OwnerSettings
  environments : Option EnvironmentSettings
  format : Option FormatSettings
  deriving DecidableEq, Repr

namespace Settings

def none : Settings := ⟨.none, .none, .none, .none, .none, .none, .none, .none, .none⟩

/-- The configuration that settings come to: what is not given is as by default. -/
def resolve (s : Settings) : Config where
  sourceFile := s.sourceFile.getD Config.default.sourceFile
  manifestFile := s.manifestFile.getD Config.default.manifestFile
  readmeFile := s.readmeFile.getD Config.default.readmeFile
  filesDir := s.filesDir.getD Config.default.filesDir
  mapsDir := s.mapsDir.getD Config.default.mapsDir
  owner :=
    ⟨(s.owner.bind (·.user)).getD Config.default.owner.user,
      (s.owner.bind (·.group)).getD Config.default.owner.group⟩
  cronUser := s.cronUser.getD Config.default.cronUser
  environments :=
    ⟨(s.environments.bind (·.names)).getD Config.default.environments.names,
      (s.environments.bind (·.grain)).getD Config.default.environments.grain,
      (s.environments.bind (·.fallback)).getD Config.default.environments.fallback⟩
  formatEnabled := (s.format.bind (·.enabled)).getD Config.default.formatEnabled

@[simp] theorem resolve_none : resolve none = Config.default := rfl

end Settings

end Saltern
