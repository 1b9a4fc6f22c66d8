import Saltern.Project.Locate
import Saltern.Pins.Store
import Saltern.Salt.Manifest

/-!
# The reach of a project

The paths that a task looks at or changes: those that decide the configuration, and, once that is
known, the source and everything that is made from it.
-/

namespace Saltern.Project

/-- Where the configuration may be. -/
def configPlaces (root : Path) (q : Request) : List Path :=
  (q.configFile? root).toList ++ Config.fileNames.map root.resolve

/-- Where the source may be. -/
def sourcePlaces (root : Path) (q : Request) (c : Config) : List Path :=
  [q.sourcePath root c, root.resolve c.sourceFile]

/-- Where the files are that are made from the source. -/
def artifactPlaces (root : Path) (c : Config) : List Path :=
  let maps := root.resolve c.mapsDir
  [root.resolve c.manifestFile, root.resolve c.readmeFile, root.resolve c.filesDir, maps,
    maps.resolve PinStore.fileName, maps.resolve lookupFile]

/-- All that a task may look at or change. -/
def places (root : Path) (q : Request) (c : Config) : List Path :=
  configPlaces root q ++ sourcePlaces root q c ++ artifactPlaces root c

end Saltern.Project
