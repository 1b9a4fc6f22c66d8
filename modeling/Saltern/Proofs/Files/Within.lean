import Mathlib.Logic.Relation
import Saltern.Proofs.Files.Frame

/-!
# Paths below a directory

What a text leads to is what is left of its segments when everything that cancels is taken out, and whether that
lies in a directory, which is told by comparing texts, is a matter of whole segments: the directory's come first.
-/

namespace Saltern.Path

variable {p q dir : Path} {t u root : Text} {ts us : List Text}

@[ext] theorem ext (h : p.parts = q.parts) : p = q := by
  cases p
  cases q
  cases h
  rfl

/-! ## Normal forms -/

/-- One step of normalising the segments of a path: nothing and a single dot stay where they are, double dots take
back the part before them, and at the top they lead nowhere. -/
inductive Shortens : List Text → List Text → Prop
  | stay (before after : List Text) {t : Text} (h : t = [] ∨ t = ['.']) :
      Shortens (before ++ t :: after) (before ++ after)
  | back (before after : List Text) {t : Text} (h : IsPart t) :
      Shortens (before ++ t :: ['.', '.'] :: after) (before ++ after)
  | top (after : List Text) : Shortens (['.', '.'] :: after) after

/-- Whether a text, read from the top, names a path: its segments come to the parts of the path. -/
def Names (t : Text) (p : Path) : Prop := Relation.ReflTransGen Shortens (Text.splitOn '/' t) p.parts

/-- A text as it reads from a directory that is itself given as a text. -/
def behind (root t : Text) : Text := if t.head? = some '/' then t else root ++ '/' :: t

theorem step_of_stay (p : Path) (h : t = [] ∨ t = ['.']) : p.step t = p := by
  rcases h with rfl | rfl <;> rfl

theorem step_of_isPart (p : Path) (h : IsPart t) : p.step t = p.child t h := by
  rw [step, if_neg h.2.2.2, dif_pos h]

theorem step_dots (p : Path) : p.step ['.', '.'] = p.parent := if_pos rfl

theorem parts_foldl_step (h : ∀ t ∈ ts, IsPart t) (p : Path) : (ts.foldl step p).parts = p.parts ++ ts := by
  induction ts generalizing p with
  | nil => exact (List.append_nil _).symm
  | cons t ts ih =>
      obtain ⟨ht, hts⟩ := List.forall_mem_cons.mp h
      rw [List.foldl_cons, ih hts, step_of_isPart p ht, child, List.append_assoc]
      rfl

/-- The parts of a path lead to it from the top. -/
theorem foldl_step_parts (p : Path) : p.parts.foldl step top = p :=
  ext (parts_foldl_step p.proper top)

/-- Shortening makes no difference to where the segments lead from the top. -/
theorem Shortens.foldl_step (h : Shortens ts us) : ts.foldl step Path.top = us.foldl step Path.top := by
  cases h with
  | stay before after ht => rw [List.foldl_append, List.foldl_append, List.foldl_cons, step_of_stay _ ht]
  | back before after ht =>
      rw [List.foldl_append, List.foldl_append, List.foldl_cons, List.foldl_cons, step_of_isPart _ ht, step_dots,
        parent_child]
  | top after => rfl

theorem shortens_dots (p : Path) (ts : List Text) :
    Shortens (p.parts ++ ['.', '.'] :: ts) (p.parent.parts ++ ts) := by
  have hparent : p.parent.parts = p.parts.dropLast := rfl
  rw [hparent]
  rcases List.eq_nil_or_concat p.parts with hnil | ⟨before, last, hparts⟩
  · rw [hnil]
    exact .top ts
  · have hlast : IsPart last := p.proper last (by simp [hparts])
    rw [hparts, List.concat_eq_append, List.dropLast_concat, List.append_assoc]
    exact .back before ts hlast

/-- Whatever does not lead down is taken out. -/
theorem shortens_foldl_step (h : ∀ t ∈ ts, '/' ∉ t) (p : Path) :
    Relation.ReflTransGen Shortens (p.parts ++ ts) (ts.foldl step p).parts := by
  induction ts generalizing p with
  | nil =>
      rw [List.append_nil]
      exact .refl
  | cons t ts ih =>
      obtain ⟨ht, hts⟩ := List.forall_mem_cons.mp h
      rw [List.foldl_cons]
      by_cases hdots : t = ['.', '.']
      · rw [hdots, step_dots]
        exact .head (shortens_dots p ts) (ih hts p.parent)
      · by_cases hpart : IsPart t
        · rw [step_of_isPart p hpart, List.append_cons p.parts t ts]
          exact ih hts (p.child t hpart)
        · have hstay : t = [] ∨ t = ['.'] := by
            by_contra hno
            rw [not_or] at hno
            exact hpart ⟨hno.1, ht, hno.2, hdots⟩
          rw [step_of_stay p hstay]
          exact .head (.stay p.parts ts hstay) (ih hts p)

theorem ofText_eq_foldl (t : Text) : ofText t = (Text.splitOn '/' t).foldl step top := by
  rw [ofText, resolve, ite_self]

/-- Every text names one path, the one it leads to from the top. -/
theorem names_iff : Names t p ↔ ofText t = p := by
  rw [ofText_eq_foldl]
  constructor
  · intro h
    have hsame : ∀ {us}, Relation.ReflTransGen Shortens (Text.splitOn '/' t) us →
        (Text.splitOn '/' t).foldl step top = us.foldl step top := by
      intro us h
      induction h with
      | refl => rfl
      | tail _ hstep ih => exact ih.trans hstep.foldl_step
    rw [hsame h, foldl_step_parts]
  · rintro rfl
    exact shortens_foldl_step (fun t ht hslash ↦ (Text.mem_of_mem_splitOn ht '/' hslash).2 rfl) top

/-- The text of a path leads to it from everywhere. -/
theorem resolve_text (base p : Path) : base.resolve p.text = p := by
  have hstay : top.step [] = top := rfl
  rw [resolve, text, List.head?_cons, if_pos rfl, Text.splitOn, if_pos rfl, List.foldl_cons, hstay]
  by_cases hnil : p.parts = []
  · rw [hnil]
    exact ext hnil.symm
  · rw [Text.splitOn_joinWith hnil fun t ht ↦ (p.proper t ht).2.1, foldl_step_parts]

theorem text_injective (h : p.text = q.text) : p = q := by
  rw [← resolve_text top p, h, resolve_text]

/-- Where a text leads from a directory, it leads from the top behind the directory's own text. -/
theorem ofText_behind (root t : Text) : ofText (behind root t) = (ofText root).resolve t := by
  rw [behind]
  by_cases ht : t.head? = some '/'
  · rw [if_pos ht, ofText, resolve, if_pos ht, resolve, if_pos ht]
  · rw [if_neg ht, ofText_eq_foldl, Text.splitOn_append_sep, List.foldl_append, ← ofText_eq_foldl, resolve, if_neg ht]

/-! ## Containment -/

theorem text_slash_isPrefix_iff (hdir : dir.parts ≠ []) :
    dir.text ++ ['/'] <+: p.text ↔ ∃ below, below ≠ [] ∧ dir.parts ++ below = p.parts := by
  have hslash : ∀ q : Path, ∀ t ∈ q.parts, '/' ∉ t := fun q t ht ↦ (q.proper t ht).2.1
  rw [text, text, List.cons_append, List.cons_prefix_cons, and_iff_right rfl]
  constructor
  · rintro ⟨r, hr⟩
    have hp : p.parts ≠ [] := by
      intro hnil
      rw [hnil, Text.joinWith_nil, List.append_assoc] at hr
      exact absurd (List.append_eq_nil_iff.mp hr).2 (List.cons_ne_nil _ _)
    refine ⟨Text.splitOn '/' r, Text.splitOn_ne_nil '/' r, ?_⟩
    calc dir.parts ++ Text.splitOn '/' r
        = Text.splitOn '/' (Text.joinWith ['/'] dir.parts ++ '/' :: r) := by
          rw [Text.splitOn_append_sep, Text.splitOn_joinWith hdir (hslash dir)]
      _ = Text.splitOn '/' (Text.joinWith ['/'] p.parts) := by rw [← hr, List.append_assoc, List.singleton_append]
      _ = p.parts := Text.splitOn_joinWith hp (hslash p)
  · rintro ⟨below, hbelow, hparts⟩
    rw [← hparts, Text.joinWith_append hdir hbelow]
    exact List.prefix_append _ _

/-- A path is in a directory exactly where the parts of the directory come first, so a sibling whose name merely goes
on is not. -/
theorem contains_iff : dir.contains p = true ↔ dir.parts <+: p.parts := by
  have htext : p.text = dir.text ↔ p.parts = dir.parts :=
    ⟨fun h ↦ congrArg parts (text_injective h), fun h ↦ congrArg text (ext h)⟩
  rw [contains, Bool.or_eq_true, decide_eq_true_iff, Text.startsWith, List.isPrefixOf_iff_prefix]
  by_cases hdir : dir.parts = []
  · rw [if_pos (List.isEmpty_iff.mpr hdir), hdir]
    refine iff_of_true (.inl ?_) List.nil_prefix
    rw [text, text, hdir]
    exact ⟨_, rfl⟩
  · rw [if_neg fun h ↦ hdir (List.isEmpty_iff.mp h), text_slash_isPrefix_iff hdir, htext]
    constructor
    · rintro (⟨below, -, hparts⟩ | hparts)
      · exact ⟨below, hparts⟩
      · exact hparts ▸ List.prefix_rfl
    · rintro ⟨below, hparts⟩
      by_cases hbelow : below = []
      · rw [hbelow, List.append_nil] at hparts
        exact .inr hparts.symm
      · exact .inl ⟨below, hbelow, hparts⟩

/-- What is below a directory is contained in it. -/
theorem contains_child (p : Path) (a : Text) (ha : IsPart a) : p.contains (p.child a ha) = true :=
  contains_iff.mpr (List.prefix_append p.parts [a])

theorem resolveWithin_eq_ok_iff : dir.resolveWithin t = .ok p ↔ dir.resolve t = p ∧ dir.parts <+: p.parts := by
  rw [resolveWithin, ← contains_iff]
  constructor
  · intro h
    split at h
    · next hin =>
      cases h
      exact ⟨rfl, hin⟩
    · cases h
  · rintro ⟨rfl, hin⟩
    rw [if_pos hin]

theorem resolveWithin_eq_error_iff {o : Outside} :
    dir.resolveWithin t = .error o ↔ dir = o.root ∧ dir.resolve t = o.target ∧ ¬ o.root.parts <+: o.target.parts := by
  rw [resolveWithin, ← contains_iff]
  constructor
  · intro h
    split at h
    · cases h
    · next hout =>
      cases h
      exact ⟨rfl, rfl, hout⟩
  · rintro ⟨rfl, htarget, hout⟩
    rw [← htarget] at hout
    rw [if_neg hout, htarget]

end Saltern.Path
