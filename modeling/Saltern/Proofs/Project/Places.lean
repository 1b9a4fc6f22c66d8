import Saltern.Project.Run
import Saltern.Proofs.Files.Frame

/-!
# The places of a project without a configuration

Where a project has no configuration file, everything lies where it does by default. As long as
nothing stands in the way there, every directory is made and every file is written, and nothing is
put anywhere else.
-/

namespace Saltern.Project

variable {root p q : Path} {t t' : FileTree} {c : Change} {cs : List Change}

/-- The Brinefile of a project without a configuration. -/
def brinefile (root : Path) : Path := root.resolve Config.default.sourceFile

/-- The store of the pins of such a project. -/
def storePath (root : Path) : Path := (root.resolve Config.default.mapsDir).resolve PinStore.fileName

/-- The lookup of the pins. -/
def lookupPath (root : Path) : Path := (root.resolve Config.default.mapsDir).resolve lookupFile

/-- The directories that are made, and those on the way to them. -/
def ways (root : Path) : List Path :=
  root.lineage ++ [root.resolve Config.default.filesDir, root.resolve Config.default.mapsDir]

/-- The files that are written. -/
def written (root : Path) : List Path :=
  [brinefile root, root.resolve Config.default.manifestFile, root.resolve Config.default.readmeFile,
    storePath root, lookupPath root]

/-- Whether a project has no configuration file, no file stands where directories are made, and no
directory where files are written. -/
structure Clear (root : Path) (t : FileTree) : Prop where
  unconfigured : t.configFile? root = none
  ways : ∀ p ∈ ways root, t.isFile p = false
  written : ∀ p ∈ written root, t.node? p ≠ some .dir

/-- Whether a change is one of those that are made in such a project. -/
def Within (root : Path) : Change → Prop
  | .directory p => p = root.resolve Config.default.filesDir ∨ p = root.resolve Config.default.mapsDir
  | .file p _ => p ∈ written root

/-! ## Paths -/

theorem resolve_filesDir (root : Path) :
    root.resolve Config.default.filesDir = root.child "files" (by decide) := Path.resolve_eq_child root _

theorem resolve_mapsDir (root : Path) :
    root.resolve Config.default.mapsDir = root.child "maps" (by decide) := Path.resolve_eq_child root _

theorem resolve_manifestFile (root : Path) :
    root.resolve Config.default.manifestFile = root.child "init.sls" (by decide) :=
  Path.resolve_eq_child root _

theorem resolve_readmeFile (root : Path) :
    root.resolve Config.default.readmeFile = root.child "README.md" (by decide) :=
  Path.resolve_eq_child root _

theorem brinefile_eq (root : Path) : brinefile root = root.child "Brinefile" (by decide) :=
  Path.resolve_eq_child root _

theorem storePath_eq (root : Path) :
    storePath root = (root.child "maps" (by decide)).child "versions.json" (by decide) := by
  rw [storePath, resolve_mapsDir]
  exact Path.resolve_eq_child _ _

theorem lookupPath_eq (root : Path) :
    lookupPath root = (root.child "maps" (by decide)).child "versions.map.jinja" (by decide) := by
  rw [lookupPath, resolve_mapsDir]
  exact Path.resolve_eq_child _ _

theorem ways_eq (root : Path) :
    ways root = root.lineage ++ [root.child "files" (by decide), root.child "maps" (by decide)] := by
  rw [ways, resolve_filesDir, resolve_mapsDir]

theorem written_eq (root : Path) :
    written root = [root.child "Brinefile" (by decide), root.child "init.sls" (by decide),
      root.child "README.md" (by decide),
      (root.child "maps" (by decide)).child "versions.json" (by decide),
      (root.child "maps" (by decide)).child "versions.map.jinja" (by decide)] := by
  rw [written, brinefile_eq, resolve_manifestFile, resolve_readmeFile, storePath_eq, lookupPath_eq]

/-- The directory of the pins. -/
def mapsDirectory (root : Path) : Path := root.child "maps" (by decide)

theorem not_mem_ways {a : Text} {ha : IsPart a} (hp : p = root ∨ p = mapsDirectory root)
    (hfiles : a ≠ "files".toList) (hmaps : a ≠ "maps".toList) : p.child a ha ∉ ways root := by
  have hlong : p.child a ha ∉ root.lineage := by
    intro h
    have hlength := Path.length_le_of_mem_lineage h
    rcases hp with rfl | rfl
    · exact Path.child_not_mem_lineage _ a ha h
    · simp only [mapsDirectory, Path.child, List.length_append, List.length_singleton] at hlength
      omega
  rw [ways_eq, List.mem_append, List.mem_cons, List.mem_singleton]
  rintro (h | h | h)
  · exact hlong h
  · exact Path.child_ne hfiles h
  · exact Path.child_ne hmaps h

/-- Files are written at the top of the project and beside the pins, under names of their own. -/
theorem exists_of_mem_written (h : p ∈ written root) :
    ∃ q a ha, (q = root ∨ q = mapsDirectory root) ∧ a ≠ "files".toList ∧ a ≠ "maps".toList ∧
      p = q.child a ha := by
  rw [written_eq] at h
  simp only [List.mem_cons, List.not_mem_nil, or_false] at h
  rcases h with rfl | rfl | rfl | rfl | rfl
  · exact ⟨root, _, _, .inl rfl, by decide, by decide, rfl⟩
  · exact ⟨root, _, _, .inl rfl, by decide, by decide, rfl⟩
  · exact ⟨root, _, _, .inl rfl, by decide, by decide, rfl⟩
  · exact ⟨mapsDirectory root, _, _, .inr rfl, by decide, by decide, rfl⟩
  · exact ⟨mapsDirectory root, _, _, .inr rfl, by decide, by decide, rfl⟩

/-- No file is written in the place of a directory. -/
theorem not_mem_ways_of_written (h : p ∈ written root) : p ∉ ways root := by
  obtain ⟨q, a, ha, hq, hfiles, hmaps, rfl⟩ := exists_of_mem_written h
  exact not_mem_ways hq hfiles hmaps

/-- The directories on the way to a file are among those that are made. -/
theorem mem_ways_of_mem_lineage (h : p ∈ written root) (hq : q ∈ p.parent.lineage) : q ∈ ways root := by
  obtain ⟨base, a, ha, hbase, -, -, rfl⟩ := exists_of_mem_written h
  rw [Path.parent_child] at hq
  rw [ways_eq]
  rcases hbase with rfl | rfl
  · exact List.mem_append_left _ hq
  · rw [mapsDirectory, Path.lineage_child, List.mem_append, List.mem_singleton] at hq
    rcases hq with hq | rfl
    · exact List.mem_append_left _ hq
    · exact List.mem_append_right _ (List.mem_cons_of_mem _ List.mem_cons_self)

theorem storePath_mem_written : storePath root ∈ written root := by simp [written]

theorem lookupPath_mem_written : lookupPath root ∈ written root := by simp [written]

theorem brinefile_ne_storePath : brinefile root ≠ storePath root := by
  rw [brinefile_eq, storePath_eq]
  exact Path.child_ne (by decide)

/-- Configuration files are looked for elsewhere. -/
theorem not_mem_of_config (root : Path) {n : Text} (h : n ∈ Config.fileNames) :
    root.resolve n ∉ ways root ∧ root.resolve n ∉ written root := by
  have hpart : ∀ n ∈ Config.fileNames, IsPart n ∧
      n ∉ (["files", "maps", "Brinefile", "init.sls", "README.md", "versions.json", "versions.map.jinja"] :
        List String).map String.toList := by decide
  obtain ⟨hn, hno⟩ := hpart n h
  simp only [List.map_cons, List.map_nil, List.mem_cons, List.not_mem_nil, or_false, not_or] at hno
  obtain ⟨hfiles, hmaps, hsource, hmanifest, hreadme, hstore, hlookup⟩ := hno
  rw [Path.resolve_eq_child root hn]
  refine ⟨not_mem_ways (.inl rfl) hfiles hmaps, ?_⟩
  rw [written_eq]
  simp only [List.mem_cons, List.not_mem_nil, or_false, not_or]
  exact ⟨Path.child_ne hsource, Path.child_ne hmanifest, Path.child_ne hreadme, Path.child_ne hstore,
    Path.child_ne hlookup⟩

/-! ## Changes -/

theorem mem_ways_of_directory (h : Within root (.directory p)) (hq : q ∈ p.lineage) : q ∈ ways root := by
  rw [ways_eq, List.mem_append, List.mem_cons, List.mem_singleton]
  rcases h with rfl | rfl
  · rw [resolve_filesDir, Path.lineage_child, List.mem_append, List.mem_singleton] at hq
    exact hq.imp_right .inl
  · rw [resolve_mapsDir, Path.lineage_child, List.mem_append, List.mem_singleton] at hq
    exact hq.imp_right .inr

/-- Nothing is touched but what is on the way and what is written. -/
theorem mem_of_mem_touches (hc : Within root c) (hq : q ∈ c.touches) : q ∈ ways root ∨ q ∈ written root := by
  cases c with
  | directory p => exact .inl (mem_ways_of_directory hc hq)
  | file p text =>
      rcases List.mem_cons.mp hq with rfl | hq
      · exact .inr hc
      · exact .inl (mem_ways_of_mem_lineage hc hq)

theorem exists_apply (h : Clear root t) (hc : Within root c) : ∃ t', c.apply t = .ok t' := by
  cases c with
  | directory p => exact FileTree.exists_makeDirs fun q hq ↦ h.ways q (mem_ways_of_directory hc hq)
  | file p text =>
      exact FileTree.exists_write (fun q hq ↦ h.ways q (mem_ways_of_mem_lineage hc hq))
        (fun hq ↦ not_mem_ways_of_written hc (mem_ways_of_mem_lineage hc hq)) (h.written p hc)

/-- What lies where files are written is what was written last. -/
theorem node?_of_apply (hc : Within root c) (h : c.apply t = .ok t') (hp : p ∈ written root) :
    t'.node? p = ((Change.textAt p [c]).map .file).or (t.node? p) := by
  have hways := not_mem_ways_of_written hp
  cases c with
  | directory q => exact FileTree.node?_makeDirs h fun hm ↦ hways (mem_ways_of_directory hc hm)
  | file q text =>
      rw [Change.textAt, Change.textAt, Option.none_or]
      split
      · next hq =>
        subst hq
        exact FileTree.node?_write_self h
      · next hq => exact FileTree.node?_write h (Ne.symm hq) fun hm ↦ hways (mem_ways_of_mem_lineage hc hm)

theorem Clear.of_apply (hclear : Clear root t) (hc : Within root c) (h : c.apply t = .ok t') :
    Clear root t' := by
  refine ⟨?_, fun q hq ↦ ?_, fun q hq ↦ ?_⟩
  · have hnone := hclear.unconfigured
    rw [FileTree.configFile?, List.find?_eq_none] at hnone ⊢
    intro q hq
    have hplace := hnone q hq
    obtain ⟨n, hn, rfl⟩ := List.mem_map.mp hq
    obtain ⟨hways, hwritten⟩ := not_mem_of_config root hn
    have hsame := Change.node?_apply h fun hm ↦ (mem_of_mem_touches hc hm).elim hways hwritten
    rwa [FileTree.holds, hsame]
  · have hnone : Change.textAt q [c] = none := by
      cases c with
      | directory p => rfl
      | file p text =>
          rw [Change.textAt, Change.textAt, Option.none_or, if_neg]
          rintro rfl
          exact not_mem_ways_of_written hc hq
    rw [Change.isFile_apply h hnone, hclear.ways q hq]
  · rw [node?_of_apply hc h hq]
    cases Change.textAt q [c] with
    | none => exact hclear.written q hq
    | some text => rintro ⟨⟩

/-- Changes in a clear project are all made, and leave it clear. -/
theorem Clear.after (h : Clear root t) (hcs : ∀ c ∈ cs, Within root c) :
    Change.refusal? t cs = none ∧ Clear root (Change.after t cs) ∧
      ∀ p ∈ Project.written root,
        (Change.after t cs).node? p = ((Change.textAt p cs).map .file).or (t.node? p) := by
  induction cs generalizing t with
  | nil => exact ⟨rfl, h, fun _ _ ↦ rfl⟩
  | cons c cs ih =>
      obtain ⟨hc, hcs⟩ := List.forall_mem_cons.mp hcs
      obtain ⟨t', ht'⟩ := exists_apply h hc
      obtain ⟨hrefusal, hclear, hnodes⟩ := ih (h.of_apply hc ht') hcs
      rw [Change.refusal?, Change.after, ht']
      refine ⟨hrefusal, hclear, fun p hp ↦ ?_⟩
      dsimp only
      rw [hnodes p hp, node?_of_apply hc ht' hp, Change.textAt_cons p c cs, Option.map_or, Option.or_assoc]

end Saltern.Project
