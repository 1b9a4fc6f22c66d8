import Saltern.Proofs.Files.Change
import Saltern.Proofs.Text.OneLine

/-!
# What a change leaves alone

A change touches the directories on its way and, if it writes a file, that file. Whatever lies
elsewhere stays; on the way only directories are added; and nothing but a file on the way, or a
directory in the file's place, can refuse it.
-/

namespace Saltern

namespace Path

variable {p q : Path} {a b : Text} {ha : IsPart a} {hb : IsPart b}

/-! ## Parts below a path -/

theorem parent_child (p : Path) (a : Text) (ha : IsPart a) : (p.child a ha).parent = p := by
  cases p
  simp [parent, child]

theorem child_ne (hab : a ≠ b) : p.child a ha ≠ q.child b hb := by
  intro h
  have hparts := congrArg Path.parts h
  exact hab (List.singleton_inj.mp (List.append_inj' hparts rfl).2)

/-- A text without slashes leads one part down. -/
theorem resolve_eq_child (p : Path) (ha : IsPart a) : p.resolve a = p.child a ha := by
  obtain ⟨hne, hslash, hdot, hdots⟩ := id ha
  have hhead : a.head? ≠ some '/' := fun h ↦ hslash (List.mem_of_mem_head? h)
  rw [resolve, if_neg hhead, Text.splitOn_of_not_mem hslash, List.foldl_cons, List.foldl_nil, step,
    if_neg hdots, dif_pos ha]

theorem lineage_child (p : Path) (a : Text) (ha : IsPart a) :
    (p.child a ha).lineage = p.lineage ++ [p.child a ha] := by
  have hlength : (p.child a ha).parts.length = p.parts.length + 1 := List.length_append
  rw [lineage, hlength, lineageTo, parent_child]
  rfl

theorem length_le_of_mem_lineage (h : q ∈ p.lineage) : q.parts.length ≤ p.parts.length := by
  have hall : ∀ n p, q ∈ lineageTo n p → q.parts.length ≤ p.parts.length := by
    intro n
    induction n with
    | zero => nofun
    | succ n ih =>
        intro p h
        rcases List.mem_append.mp h with h | h
        · have hparent : p.parent.parts.length ≤ p.parts.length := by simp [parent]
          exact Nat.le_trans (ih p.parent h) hparent
        · exact Nat.le_of_eq (congrArg (List.length ∘ parts) (List.mem_singleton.mp h))
  exact hall _ p h

theorem child_not_mem_lineage (p : Path) (a : Text) (ha : IsPart a) : p.child a ha ∉ p.lineage := by
  intro h
  have hlength := length_le_of_mem_lineage h
  rw [child, List.length_append] at hlength
  exact Nat.not_succ_le_self _ hlength

/-- A path with parts is on the way to itself. -/
theorem mem_lineage (h : p.parts ≠ []) : p ∈ p.lineage := by
  obtain ⟨n, hn⟩ := Nat.exists_eq_succ_of_ne_zero (List.length_eq_zero_iff.not.mpr h)
  rw [lineage, hn, lineageTo]
  exact List.mem_append_right _ (List.mem_singleton.mpr rfl)

end Path

namespace FileTree

variable {t t' : FileTree} {p q : Path} {text : Text}

/-! ## Directories -/

theorem node?_top (h : p.parts = []) : t.node? p = some .dir := by
  rw [node?, if_pos (List.isEmpty_iff.mpr h)]

theorem node?_eq_get? (h : p.parts ≠ []) : t.node? p = t.nodes.get? p := by
  rw [node?, if_neg (by simpa using h)]

theorem node?_addDir_of_ne (h : q ≠ p) : (t.addDir p).node? q = t.node? q := by
  unfold addDir
  split
  · rfl
  · by_cases hq : q.parts = []
    · rw [node?_top hq, node?_top hq]
    · rw [node?_eq_get? hq, node?_eq_get? hq]
      exact (Table.get?_set t.nodes p .dir q).trans (if_neg h.symm)

theorem isFile_addDir (t : FileTree) (p q : Path) : (t.addDir p).isFile q = t.isFile q := by
  by_cases h : q = p
  · subst h
    unfold addDir
    split
    · rfl
    · next hholds =>
      have hne : q.parts ≠ [] := fun hq ↦ hholds (by rw [holds, node?_top hq]; rfl)
      have hnone : t.node? q = none := by
        rw [holds, Bool.not_eq_true, Option.isSome_eq_false_iff, Option.isNone_iff_eq_none] at hholds
        exact hholds
      have hdir : (FileTree.mk (t.nodes.set q .dir)).node? q = some .dir := by
        rw [node?_eq_get? hne, Table.get?_set, if_pos rfl]
      rw [isFile, isFile, hdir, hnone]
  · rw [isFile, isFile, node?_addDir_of_ne h]

theorem node?_foldl_addDir {ps : List Path} (h : q ∉ ps) : (ps.foldl addDir t).node? q = t.node? q := by
  induction ps generalizing t with
  | nil => rfl
  | cons p ps ih =>
      rw [List.mem_cons, not_or] at h
      rw [List.foldl_cons, ih h.2, node?_addDir_of_ne h.1]

theorem isFile_foldl_addDir (t : FileTree) (ps : List Path) (q : Path) :
    (ps.foldl addDir t).isFile q = t.isFile q := by
  induction ps generalizing t with
  | nil => rfl
  | cons p ps ih => rw [List.foldl_cons, ih, isFile_addDir]

/-- Making directories changes nothing but what is on the way. -/
theorem node?_makeDirs (h : t.makeDirs p = .ok t') (hq : q ∉ p.lineage) : t'.node? q = t.node? q := by
  unfold makeDirs at h
  split at h
  · cases h
    rfl
  · split at h
    · cases h
    · cases h
      exact node?_foldl_addDir hq

/-- Making directories makes no file, and takes none away. -/
theorem isFile_makeDirs (h : t.makeDirs p = .ok t') (q : Path) : t'.isFile q = t.isFile q := by
  unfold makeDirs at h
  split at h
  · cases h
    rfl
  · split at h
    · cases h
    · cases h
      exact isFile_foldl_addDir t p.lineage q

theorem exists_makeDirs (h : ∀ q ∈ p.lineage, t.isFile q = false) : ∃ t', t.makeDirs p = .ok t' := by
  have hno : ¬ p.lineage.any t.isFile = true := by
    rw [List.any_eq_true]
    rintro ⟨q, hq, hfile⟩
    rw [h q hq] at hfile
    cases hfile
  unfold makeDirs
  rw [if_neg hno]
  split <;> exact ⟨_, rfl⟩

/-! ## Files -/

/-- What is read is the text of the file that lies there. -/
theorem read_eq_ok_iff : t.read p = .ok text ↔ t.node? p = some (.file text) := by
  rw [read]
  cases t.node? p with
  | none => exact iff_of_false nofun nofun
  | some n =>
      cases n with
      | dir => exact iff_of_false nofun nofun
      | file u => exact ⟨fun h ↦ by cases h; rfl, fun h ↦ by cases h; rfl⟩

theorem node?_write_self (h : t.write p text = .ok t') : t'.node? p = some (.file text) := by
  obtain ⟨u, -, hdir, rfl⟩ := write_spec h
  have hne : p.parts ≠ [] := fun hp ↦ hdir (node?_top hp)
  rw [node?_eq_get? hne, Table.get?_set, if_pos rfl]

theorem node?_set_of_ne {n : Node} (h : q ≠ p) : (FileTree.mk (t.nodes.set p n)).node? q = t.node? q := by
  by_cases hq : q.parts = []
  · rw [node?_top hq, node?_top hq]
  · rw [node?_eq_get? hq, node?_eq_get? hq]
    exact (Table.get?_set t.nodes p n q).trans (if_neg h.symm)

theorem node?_write (h : t.write p text = .ok t') (hne : q ≠ p) (hq : q ∉ p.parent.lineage) :
    t'.node? q = t.node? q := by
  obtain ⟨u, hu, -, rfl⟩ := write_spec h
  rw [node?_set_of_ne hne, node?_makeDirs hu hq]

theorem isFile_write (h : t.write p text = .ok t') (hne : q ≠ p) : t'.isFile q = t.isFile q := by
  obtain ⟨u, hu, -, rfl⟩ := write_spec h
  rw [← isFile_makeDirs hu q, isFile, isFile, node?_set_of_ne hne]

theorem exists_write (hway : ∀ q ∈ p.parent.lineage, t.isFile q = false) (hp : p ∉ p.parent.lineage)
    (hdir : t.node? p ≠ some .dir) : ∃ t', t.write p text = .ok t' := by
  obtain ⟨u, hu⟩ := exists_makeDirs hway
  have hparent : u.isFile p.parent = false := by
    by_cases htop : p.parent.parts = []
    · rw [isFile, node?_top htop]
    · rw [isFile_makeDirs hu, hway _ (Path.mem_lineage htop)]
  have hplace : u.node? p ≠ some .dir := by
    rw [node?_makeDirs hu hp]
    exact hdir
  rw [write, hu]
  dsimp only
  rw [hparent, if_neg Bool.false_ne_true, if_neg hplace]
  exact ⟨_, rfl⟩

end FileTree

namespace Change

variable {t t' : FileTree} {c : Change} {q : Path}

/-- Where a change may put something. -/
def touches : Change → List Path
  | .directory p => p.lineage
  | .file p _ => p :: p.parent.lineage

theorem textAt_cons (p : Path) (c : Change) (cs : List Change) :
    textAt p (c :: cs) = (textAt p cs).or (textAt p [c]) := by
  cases c with
  | directory q => exact (Option.or_none ..).symm
  | file q text => rfl

/-- What a change does not touch stays as it is. -/
theorem node?_apply (h : apply t c = .ok t') (hq : q ∉ c.touches) : t'.node? q = t.node? q := by
  cases c with
  | directory p => exact FileTree.node?_makeDirs h hq
  | file p text =>
      rw [touches, List.mem_cons, not_or] at hq
      exact FileTree.node?_write h hq.1 hq.2

/-- A file comes only where one is written. -/
theorem isFile_apply (h : apply t c = .ok t') (hq : textAt q [c] = none) : t'.isFile q = t.isFile q := by
  cases c with
  | directory p => exact FileTree.isFile_makeDirs h q
  | file p text =>
      refine FileTree.isFile_write h ?_
      rintro rfl
      rw [textAt, textAt, if_pos rfl] at hq
      cases hq

end Change

end Saltern
