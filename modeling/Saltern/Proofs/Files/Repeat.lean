import Saltern.Proofs.Files.Frame

/-!
# Changes made twice

Changes only ever let a tree grow: a directory stays a directory and a file stays a file. So changes
that were all made find their places when they are made again, and leave everything as it is.
-/

namespace Saltern

namespace FileTree

variable {t t' t'' : FileTree} {p q : Path} {text : Text}

/-- Whether all directories and files of a tree are still there in another one, each as what it was. -/
structure Grows (t t' : FileTree) : Prop where
  dir : ∀ p, t.node? p = some .dir → t'.node? p = some .dir
  file : ∀ p, t.isFile p = true → t'.isFile p = true

theorem Grows.refl (t : FileTree) : Grows t t := ⟨fun _ h ↦ h, fun _ h ↦ h⟩

theorem Grows.trans (h : Grows t t') (h' : Grows t' t'') : Grows t t'' :=
  ⟨fun p hp ↦ h'.dir p (h.dir p hp), fun p hp ↦ h'.file p (h.file p hp)⟩

theorem holds_of_isFile (h : t.isFile p = true) : t.holds p = true := by
  rw [isFile] at h
  rw [holds]
  split at h
  · next hnode => rw [hnode]; rfl
  · cases h

/-- What is there is a directory or a file. -/
theorem dir_or_isFile_of_holds (h : t.holds p = true) : t.node? p = some .dir ∨ t.isFile p = true := by
  rw [holds] at h
  rw [isFile]
  cases hnode : t.node? p with
  | none => rw [hnode] at h; cases h
  | some n =>
      cases n with
      | dir => exact .inl rfl
      | file text => exact .inr rfl

theorem Grows.holds (h : Grows t t') (hp : t.holds p = true) : t'.holds p = true := by
  rcases dir_or_isFile_of_holds hp with hdir | hfile
  · rw [FileTree.holds, h.dir p hdir]
    rfl
  · exact holds_of_isFile (h.file p hfile)

theorem node?_foldl_addDir_of_holds {ps : List Path} (h : t.holds q = true) :
    (ps.foldl addDir t).node? q = t.node? q := by
  induction ps generalizing t with
  | nil => rfl
  | cons p ps ih =>
      have hnode : (t.addDir p).node? q = t.node? q := by
        by_cases hq : q = p
        · rw [addDir, if_pos (hq ▸ h)]
        · exact node?_addDir_of_ne hq
      have hholds : (t.addDir p).holds q = true := by rw [holds, hnode]; exact h
      rw [List.foldl_cons, ih hholds, hnode]

/-- Making directories leaves alone what is there. -/
theorem node?_makeDirs_of_holds (h : t.makeDirs p = .ok t') (hq : t.holds q = true) :
    t'.node? q = t.node? q := by
  unfold makeDirs at h
  split at h
  · cases h
    rfl
  · split at h
    · cases h
    · cases h
      exact node?_foldl_addDir_of_holds hq

end FileTree

namespace Change

open FileTree

variable {t t' : FileTree} {c : Change} {cs : List Change} {p q : Path} {text : Text}

/-- Whether a change has been made: its directory is there, or its file is, in a directory. -/
def Seated (t : FileTree) : Change → Prop
  | .directory p => t.holds p = true
  | .file p _ => t.node? p.parent = some .dir ∧ t.isFile p = true

/-- What is there stays as it is unless a file is written in its place. -/
theorem node?_apply_of_holds (h : apply t c = .ok t') (hq : t.holds q = true) (htext : textAt q [c] = none) :
    t'.node? q = t.node? q := by
  cases c with
  | directory p => exact node?_makeDirs_of_holds h hq
  | file p text =>
      have hne : q ≠ p := by
        rintro rfl
        rw [textAt, textAt, if_pos rfl] at htext
        cases htext
      obtain ⟨u, hu, -, rfl⟩ := write_spec h
      rw [node?_set_of_ne hne, node?_makeDirs_of_holds hu hq]

theorem node?_apply_of_textAt (h : apply t c = .ok t') (htext : textAt p [c] = some text) :
    t'.node? p = some (.file text) := by
  cases c with
  | directory q => cases htext
  | file q last =>
      rw [textAt, textAt, Option.none_or] at htext
      split at htext
      · next hq =>
        cases hq
        cases htext
        exact node?_write_self h
      · cases htext

theorem grows_apply (h : apply t c = .ok t') : Grows t t' := by
  constructor
  · intro p hp
    have hholds : t.holds p = true := by rw [FileTree.holds, hp]; rfl
    cases htext : textAt p [c] with
    | none => rw [node?_apply_of_holds h hholds htext, hp]
    | some text =>
        cases c with
        | directory q => cases htext
        | file q last =>
            rw [textAt, textAt, Option.none_or] at htext
            split at htext
            · next hq =>
              subst hq
              obtain ⟨u, hu, hdir, -⟩ := write_spec h
              exact absurd ((node?_makeDirs_of_holds hu hholds).trans hp) hdir
            · cases htext
  · intro p hp
    cases htext : textAt p [c] with
    | none => rw [isFile_apply h htext, hp]
    | some text => rw [FileTree.isFile, node?_apply_of_textAt h htext]

/-- A change that has been made can be made again. -/
theorem Seated.exists_apply (h : Seated t c) : ∃ t', apply t c = .ok t' := by
  cases c with
  | directory p => exact ⟨t, makeDirs_of_holds h⟩
  | file p text =>
      obtain ⟨hparent, hfile⟩ := h
      have hholds : t.holds p.parent = true := by rw [FileTree.holds, hparent]; rfl
      have hplain : t.isFile p.parent = false := by rw [FileTree.isFile, hparent]
      have hdir : t.node? p ≠ some .dir := by
        intro hdir
        rw [FileTree.isFile, hdir] at hfile
        cases hfile
      refine ⟨⟨t.nodes.set p (.file text)⟩, ?_⟩
      rw [apply, FileTree.write, makeDirs_of_holds hholds]
      dsimp only
      rw [hplain, if_neg Bool.false_ne_true, if_neg hdir]

/-! ## Several changes -/

theorem textAt_append (p : Path) (cs ds : List Change) :
    textAt p (cs ++ ds) = (textAt p ds).or (textAt p cs) := by
  induction cs with
  | nil => exact (Option.or_none ..).symm
  | cons c cs ih => rw [List.cons_append, textAt_cons, ih, Option.or_assoc, ← textAt_cons]

/-- What is there stays as it is where nothing is written. -/
theorem node?_after_of_holds (hq : t.holds q = true) (htext : textAt q cs = none) :
    (after t cs).node? q = t.node? q := by
  induction cs generalizing t with
  | nil => rfl
  | cons c cs ih =>
      rw [textAt_cons, Option.or_eq_none_iff] at htext
      rw [after]
      cases happly : apply t c with
      | error e => rfl
      | ok t' =>
          have hq' : t'.holds q = true := (grows_apply happly).holds hq
          exact (ih hq' htext.1).trans (node?_apply_of_holds happly hq htext.2)

theorem apply_of_refusal?_cons (h : refusal? t (c :: cs) = none) :
    ∃ t', apply t c = .ok t' ∧ refusal? t' cs = none ∧ after t (c :: cs) = after t' cs := by
  rw [refusal?] at h
  rw [after]
  cases hc : apply t c with
  | error e =>
      rw [hc] at h
      cases h
  | ok t' =>
      rw [hc] at h
      exact ⟨t', rfl, h, rfl⟩

/-- Where nothing is refused, each file written has the text that was written last. -/
theorem node?_after_of_textAt (h : refusal? t cs = none) (htext : textAt p cs = some text) :
    (after t cs).node? p = some (.file text) := by
  induction cs generalizing t with
  | nil => cases htext
  | cons c cs ih =>
      obtain ⟨t', hc, hcs, hafter⟩ := apply_of_refusal?_cons h
      rw [hafter]
      rw [textAt_cons] at htext
      cases hlater : textAt p cs with
      | some later =>
          rw [hlater] at htext
          exact ih hcs (hlater.trans htext)
      | none =>
          rw [hlater, Option.none_or] at htext
          have hnode := node?_apply_of_textAt hc htext
          have hholds : t'.holds p = true := by rw [FileTree.holds, hnode]; rfl
          exact (node?_after_of_holds hholds hlater).trans hnode

end Change

end Saltern
