import Saltern.Proofs.Text.Edges
import Saltern.Proofs.Text.OneLine
import Saltern.Proofs.Text.Runs
import Saltern.Salt.Slug

/-!
# The form of a slug

A slug is words of ASCII letters and digits with one underscore between neighbours. They are the longest stretches
of letters and digits of the text it is made from, which is to say that all other stretches are collapsed to
underscores and those at the edges cut off; and a slug is its own slug.
-/

namespace Saltern

namespace Text

variable {p : Char → Bool} {sep : Char} {t u w g : Text} {ws : List Text}

/-! ## Runs joined -/

theorem joinWith_cons_eq_flatMap (sep : Char) (w : Text) (ws : List Text) :
    joinWith [sep] (w :: ws) = w ++ ws.flatMap (sep :: ·) := by
  induction ws generalizing w with
  | nil => simp
  | cons v ws ih => rw [joinWith_cons_cons, ih, List.flatMap_cons, List.append_assoc, List.singleton_append,
      List.cons_append]

/-- Joined by a character that fails the test, runs are found again. -/
theorem hasRuns_joinWith (hsep : p sep = false) (h : ∀ w ∈ ws, w ≠ [] ∧ ∀ c ∈ w, p c = true) :
    HasRuns p (joinWith [sep] ws) ws := by
  induction ws with
  | nil => exact .gap (by simp)
  | cons w ws ih =>
      obtain ⟨⟨hne, hw⟩, hws⟩ := List.forall_mem_cons.mp h
      cases ws with
      | nil => simpa using HasRuns.run (g := []) (t := []) (by simp) hne hw (by simp) (.gap (by simp))
      | cons v ws =>
          have hhead : ∀ c ∈ (sep :: joinWith [sep] (v :: ws)).head?, p c = false := by
            rintro c ⟨rfl⟩
            exact hsep
          rw [joinWith_cons_cons, List.append_assoc, List.singleton_append]
          exact .run (g := []) (by simp) hne hw hhead ((ih hws).cons_of_neg hsep)

/-- Joined runs begin and end with characters of runs. -/
theorem bareEdges_joinWith (hsep : p sep = false) (h : ∀ w ∈ ws, w ≠ [] ∧ ∀ c ∈ w, p c = true) :
    BareEdges (· == sep) (joinWith [sep] ws) := by
  have hother : ∀ w ∈ ws, ∀ c ∈ w, (c == sep) = false := by
    intro w hw c hc
    rw [beq_eq_false_iff_ne]
    rintro rfl
    exact Bool.false_ne_true (hsep.symm.trans ((h w hw).2 c hc))
  constructor
  · cases ws with
    | nil => exact nofun
    | cons w ws =>
        intro c hc
        rw [joinWith_cons_eq_flatMap, List.head?_append_of_ne_nil _ (h w List.mem_cons_self).1] at hc
        exact hother w List.mem_cons_self c (List.mem_of_mem_head? hc)
  · rcases List.eq_nil_or_concat' ws with rfl | ⟨vs, v, rfl⟩
    · exact nofun
    · have hv : v ∈ vs ++ [v] := List.mem_append_right vs List.mem_cons_self
      have hlast : v <:+ joinWith [sep] (vs ++ [v]) := by
        cases vs with
        | nil => exact List.suffix_rfl
        | cons u vs =>
            rw [joinWith_concat (List.cons_ne_nil u vs)]
            exact List.suffix_append _ v
      obtain ⟨front, hfront⟩ := hlast
      intro c hc
      rw [← hfront, List.getLast?_append_of_ne_nil _ (h v hv).1] at hc
      exact hother v hv c (List.mem_of_mem_getLast? hc)

/-! ## Everything else collapsed -/

/-- A text with each longest stretch of characters that fail a test written as one separator. -/
def collapse (p : Char → Bool) (sep : Char) : Text → Text
  | [] => []
  | c :: t => if p c then c :: collapse p sep t else sep :: collapse p sep (t.dropWhile (!p ·))
termination_by t => t.length
decreasing_by
  · exact Nat.lt_succ_self t.length
  · exact Nat.lt_succ_of_le (List.dropWhile_suffix _).length_le

theorem collapse_append_of_pos (hw : ∀ c ∈ w, p c = true) (t : Text) :
    collapse p sep (w ++ t) = w ++ collapse p sep t := by
  induction w with
  | nil => rfl
  | cons c w ih =>
      obtain ⟨hc, hw⟩ := List.forall_mem_cons.mp hw
      rw [List.cons_append, collapse, if_pos hc, ih hw, List.cons_append]

/-- A gap before a run, or at the end, becomes one separator. -/
theorem collapse_append_of_neg (hne : g ≠ []) (hg : ∀ c ∈ g, p c = false) (ht : ∀ c ∈ t.head?, p c = true) :
    collapse p sep (g ++ t) = sep :: collapse p sep t := by
  obtain ⟨c, g, rfl⟩ := List.exists_cons_of_ne_nil hne
  obtain ⟨hc, hg⟩ := List.forall_mem_cons.mp hg
  have hrest : (g ++ t).dropWhile (!p ·) = t := by
    rw [List.dropWhile_append_of_pos fun d hd ↦ by rw [hg d hd, Bool.not_false]]
    cases t with
    | nil => rfl
    | cons d t => exact List.dropWhile_cons_of_neg (by rw [ht d rfl]; exact Bool.false_ne_true)
  rw [List.cons_append, collapse, if_neg (by rw [hc]; exact Bool.false_ne_true), hrest]

/-- Where a text does not begin with a run, there is a separator in front of each of them. -/
theorem HasRuns.exists_collapse (h : HasRuns p t ws) (ht : ∀ c ∈ t.head?, p c = false) (sep : Char) :
    ∃ b, (∀ c ∈ b, c = sep) ∧ collapse p sep t = ws.flatMap (sep :: ·) ++ b := by
  induction h with
  | @gap g hg =>
      cases g with
      | nil => exact ⟨[], nofun, by simp [collapse]⟩
      | cons c g =>
          refine ⟨[sep], fun d hd ↦ List.mem_singleton.mp hd, ?_⟩
          rw [← List.append_nil (c :: g), collapse_append_of_neg (List.cons_ne_nil c g) hg (by simp), collapse,
            List.flatMap_nil, List.nil_append]
  | @run g w t ws hg hne hw hgap _ ih =>
      obtain ⟨b, hb, htail⟩ := ih hgap
      obtain ⟨c, w, rfl⟩ := List.exists_cons_of_ne_nil hne
      have hgne : g ≠ [] := by
        rintro rfl
        exact Bool.false_ne_true ((ht c rfl).symm.trans (hw c List.mem_cons_self))
      refine ⟨b, hb, ?_⟩
      rw [collapse_append_of_neg hgne hg (by simpa using hw c List.mem_cons_self), collapse_append_of_pos hw, htail,
        List.flatMap_cons, List.append_assoc]
      rfl

/-- Without the separators at its edges, the collapsed text is the runs joined by separators. -/
theorem HasRuns.stripEdges_collapse (hsep : p sep = false) (h : HasRuns p t ws) :
    stripEdges (· == sep) (collapse p sep t) = joinWith [sep] ws := by
  have hjoin : ∀ {a b : Text}, (∀ c ∈ a, c = sep) → (∀ c ∈ b, c = sep) →
      stripEdges (· == sep) (a ++ joinWith [sep] ws ++ b) = joinWith [sep] ws := fun ha hb ↦
    stripEdges_between (bareEdges_joinWith hsep h.forall_mem) (by simpa using ha) (by simpa using hb)
  cases h with
  | gap hg =>
      have hhead := fun c hc ↦ hg c (List.mem_of_mem_head? hc)
      obtain ⟨b, hb, hcollapse⟩ := (HasRuns.gap hg).exists_collapse hhead sep
      rw [hcollapse]
      exact hjoin (a := []) nofun hb
  | @run g w t ws hg hne hw hgap h =>
      obtain ⟨b, hb, hcollapse⟩ := h.exists_collapse hgap sep
      have hwords : collapse p sep (w ++ t) = joinWith [sep] (w :: ws) ++ b := by
        rw [collapse_append_of_pos hw, hcollapse, joinWith_cons_eq_flatMap, List.append_assoc]
      by_cases hgne : g = []
      · rw [hgne, List.nil_append, hwords]
        exact hjoin (a := []) nofun hb
      · have hhead : ∀ c ∈ (w ++ t).head?, p c = true := by
          rw [List.head?_append_of_ne_nil w hne]
          exact fun c hc ↦ hw c (List.mem_of_mem_head? hc)
        rw [collapse_append_of_neg hgne hg hhead, hwords]
        exact hjoin (a := [sep]) (fun c hc ↦ List.mem_singleton.mp hc) hb

end Text

open Text

variable {s t : Text} {ws : List Text}

/-! ## Slugs -/

/-- One or more words of letters and digits, with one underscore between neighbours. -/
structure IsSlug (s : Text) (ws : List Text) : Prop where
  ne_nil : ws ≠ []
  forall_mem : ∀ w ∈ ws, w ≠ [] ∧ ∀ c ∈ w, c.isAlphanum = true
  eq_joinWith : s = joinWith ['_'] ws

theorem IsSlug.hasRuns (h : IsSlug s ws) : HasRuns Char.isAlphanum s ws :=
  h.eq_joinWith ▸ hasRuns_joinWith (by decide) h.forall_mem

theorem IsSlug.text_ne_nil (h : IsSlug s ws) : s ≠ [] := by
  rintro rfl
  exact h.ne_nil (h.hasRuns.eq_nil_iff.mpr nofun)

theorem IsSlug.bareEdges (h : IsSlug s ws) : BareEdges (· == '_') s :=
  h.eq_joinWith ▸ bareEdges_joinWith (p := Char.isAlphanum) (by decide) h.forall_mem

theorem slug_of_hasRuns (h : HasRuns Char.isAlphanum t ws) (hne : ws ≠ []) : slug t = joinWith ['_'] ws := by
  obtain ⟨w, ws, rfl⟩ := List.exists_cons_of_ne_nil hne
  rw [slug, hasRuns_iff.mp h]

theorem slug_of_forall (h : ∀ c ∈ t, c.isAlphanum = false) : slug t = "item" := by
  rw [slug, hasRuns_iff.mp (HasRuns.gap h)]

/-- A slug is its own slug. -/
theorem IsSlug.slug_eq (h : IsSlug s ws) : slug s = s :=
  (slug_of_hasRuns h.hasRuns h.ne_nil).trans h.eq_joinWith.symm

/-- The words of a slug are those of the text, if it has any, and otherwise one word that stands for none. -/
theorem exists_isSlug (t : Text) :
    ∃ ws, IsSlug (slug t) ws ∧ ((∃ c ∈ t, c.isAlphanum = true) → HasRuns Char.isAlphanum t ws) ∧
      ((∀ c ∈ t, c.isAlphanum = false) → ws = [("item" : Text)]) := by
  obtain ⟨ws, h⟩ := exists_hasRuns Char.isAlphanum t
  by_cases hnone : ∀ c ∈ t, c.isAlphanum = false
  · have hitem : ∀ w ∈ [("item" : Text)], w ≠ [] ∧ ∀ c ∈ w, c.isAlphanum = true := by
      rw [List.forall_mem_singleton]
      exact ⟨List.cons_ne_nil _ _, List.all_eq_true.mp (by rfl)⟩
    refine ⟨["item"], ⟨List.cons_ne_nil _ _, hitem, slug_of_forall hnone⟩, ?_, fun _ ↦ rfl⟩
    rintro ⟨c, hc, hone⟩
    exact absurd (hnone c hc) (by rw [hone]; exact Bool.false_ne_true.symm)
  · have hne : ws ≠ [] := mt h.eq_nil_iff.mp hnone
    exact ⟨ws, ⟨hne, h.forall_mem, slug_of_hasRuns h hne⟩, fun _ ↦ h, fun hall ↦ absurd hall hnone⟩

/-- A slug is what is left when all other stretches are collapsed and those at the edges cut off, if anything is. -/
theorem slug_eq_stripEdges_collapse (t : Text) :
    slug t = if stripEdges (· == '_') (collapse Char.isAlphanum '_' t) = [] then "item".toList
      else stripEdges (· == '_') (collapse Char.isAlphanum '_' t) := by
  obtain ⟨ws, h⟩ := exists_hasRuns Char.isAlphanum t
  rw [h.stripEdges_collapse (by decide)]
  by_cases hne : ws = []
  · rw [slug_of_forall (h.eq_nil_iff.mp hne), hne, joinWith_nil, if_pos rfl]
  · have hslug : IsSlug (joinWith ['_'] ws) ws := ⟨hne, h.forall_mem, rfl⟩
    rw [slug_of_hasRuns h hne, if_neg hslug.text_ne_nil]

/-- Collapsing what is no letter or digit and cutting the edges makes words out of any text: its own longest
stretches of letters and digits, in order, with one underscore between neighbours, or one word that stands for
none. Done again it changes nothing. -/
theorem slug_words (t : Text) :
    (slug t = if stripEdges (· == '_') (collapse Char.isAlphanum '_' t) = [] then "item".toList
      else stripEdges (· == '_') (collapse Char.isAlphanum '_' t)) ∧
      slug t ≠ [] ∧ BareEdges (· == '_') (slug t) ∧
      (∃ ws, IsSlug (slug t) ws ∧ ((∃ c ∈ t, c.isAlphanum = true) → HasRuns Char.isAlphanum t ws) ∧
        ((∀ c ∈ t, c.isAlphanum = false) → ws = [("item" : Text)])) ∧
      slug (slug t) = slug t := by
  obtain ⟨ws, h, -⟩ := exists_isSlug t
  exact ⟨slug_eq_stripEdges_collapse t, h.text_ne_nil, h.bareEdges, exists_isSlug t, h.slug_eq⟩

theorem slug_words_of_phrase :
    IsSlug (slug " Web: server-2!") ["Web", "server", "2"] ∧
      HasRuns Char.isAlphanum " Web: server-2!" ["Web", "server", "2"] := by
  obtain ⟨-, -, -, ⟨ws, h, hruns, -⟩, -⟩ := slug_words " Web: server-2!"
  have hws := hruns ⟨'W', by decide, by decide⟩
  have hrun : runs Char.isAlphanum " Web: server-2!" = [("Web" : Text), "server", "2"] := by decide
  obtain rfl := hrun.symm.trans hws.runs_eq
  exact ⟨h, hws⟩

end Saltern
