import Mathlib.Data.List.Infix
import Saltern.Proofs.Brinefile.Spelling

/-!
# The spelling of symlinks

A symlink line is cut at its only arrow. Its canonical spelling is read back as the same link,
unless a removal sign and a path that starts with `>` meet and make an arrow of their own.
-/

namespace Saltern.LinkLine

open Text

variable {t a b : Text} {l : LinkLine} {p : Presence}

/-! ## Cutting at arrows -/

theorem splitArrows_ne_nil (t : Text) : splitArrows t ≠ [] := by
  fun_induction splitArrows t with
  | case1 => simp
  | case2 r _ => simp
  | case3 c r _ ih =>
      obtain ⟨u, us, h⟩ := List.exists_cons_of_ne_nil ih
      simp [h, consHead]

/-- Cutting loses nothing but the arrows. -/
theorem joinWith_splitArrows (t : Text) : joinWith ['-', '>'] (splitArrows t) = t := by
  fun_induction splitArrows t with
  | case1 => rfl
  | case2 r ih =>
      obtain ⟨u, us, h⟩ := List.exists_cons_of_ne_nil (splitArrows_ne_nil r)
      rw [h] at ih ⊢
      simp [ih]
  | case3 c r _ ih =>
      obtain ⟨u, us, h⟩ := List.exists_cons_of_ne_nil (splitArrows_ne_nil r)
      rw [h] at ih ⊢
      rw [joinWith_consHead, ih]

theorem splitArrows_cons {c : Char} (h : c = '-' → t.head? ≠ some '>') :
    splitArrows (c :: t) = consHead c (splitArrows t) := by
  rw [splitArrows]
  rintro r rfl rfl
  exact h rfl rfl

/-! ## Well-formed links -/

/-- Whether a text holds no arrow. -/
def ArrowFree (t : Text) : Prop := splitArrows t = [t]

/-- What a symlink line is read as: both paths are trimmed, say something and hold no arrow, and a
link that is kept has no minus sign in front. -/
structure WellFormed (l : LinkLine) : Prop where
  linkPath : IsTrimmed l.linkPath ∧ l.linkPath ≠ [] ∧ ArrowFree l.linkPath
  targetPath : IsTrimmed l.targetPath ∧ l.targetPath ≠ [] ∧ ArrowFree l.targetPath
  kept : l.presence = .present → l.linkPath.head? ≠ some '-'

/-- Whether the canonical spelling starts with an arrow: a removal sign before a path that starts
with `>`. -/
def OpensWithArrow (l : LinkLine) : Prop := l.presence = .absent ∧ l.linkPath.head? = some '>'

instance (l : LinkLine) : Decidable l.OpensWithArrow := inferInstanceAs (Decidable (_ ∧ _))

/-! ## Texts with one arrow -/

/-- An arrow is cut out wherever it stands: no other arrow can overlap it. -/
theorem splitArrows_append (a b : Text) :
    splitArrows (a ++ '-' :: '>' :: b) = splitArrows a ++ splitArrows b := by
  fun_induction splitArrows a with
  | case1 => rw [List.nil_append, splitArrows]; rfl
  | case2 r ih => rw [List.cons_append, List.cons_append, splitArrows, ih]; rfl
  | case3 c r hr ih =>
      have hhead : c = '-' → (r ++ '-' :: '>' :: b).head? ≠ some '>' := by
        intro hc hgt
        cases r with
        | nil => simp at hgt
        | cons d r => exact hr r hc (by rw [Option.some.inj hgt])
      obtain ⟨u, us, h⟩ := List.exists_cons_of_ne_nil (splitArrows_ne_nil r)
      rw [List.cons_append, splitArrows_cons hhead, ih, h]
      rfl

theorem arrowFree_iff : ArrowFree t ↔ ¬ ['-', '>'] <:+: t := by
  constructor
  · rintro h ⟨u, v, rfl⟩
    have hlen := congrArg List.length h
    rw [List.append_assoc, List.cons_append, List.cons_append, List.nil_append,
      splitArrows_append, List.length_append, List.length_singleton] at hlen
    have hu := List.length_pos_iff.mpr (splitArrows_ne_nil u)
    have hv := List.length_pos_iff.mpr (splitArrows_ne_nil v)
    omega
  · intro h
    unfold ArrowFree
    fun_induction splitArrows t with
    | case1 => rfl
    | case2 r _ => exact absurd ⟨[], r, rfl⟩ h
    | case3 c r _ ih => rw [ih fun hr ↦ h (hr.trans (List.suffix_cons c r).isInfix)]; rfl

theorem ArrowFree.mono (h : ArrowFree t) (ha : a <:+: t) : ArrowFree a := by
  rw [arrowFree_iff] at h ⊢
  exact fun hin ↦ h (hin.trans ha)

theorem trim_isInfix (t : Text) : trim t <:+: t := by
  obtain ⟨u, v, ht, -, -⟩ := exists_eq_trim t
  exact ⟨u, v, ht.symm⟩

/-- A text with one arrow, and its two sides. -/
theorem splitArrows_eq_pair_iff :
    splitArrows t = [a, b] ↔ t = a ++ '-' :: '>' :: b ∧ ArrowFree a ∧ ArrowFree b := by
  constructor
  · intro h
    have ht : t = a ++ '-' :: '>' :: b := by
      rw [← joinWith_splitArrows t, h]
      simp
    rw [ht, splitArrows_append] at h
    obtain ⟨u, us, hu⟩ := List.exists_cons_of_ne_nil (splitArrows_ne_nil a)
    obtain ⟨v, vs, hv⟩ := List.exists_cons_of_ne_nil (splitArrows_ne_nil b)
    have hus : us = [] := by
      rw [hu, hv] at h
      have hlen := congrArg List.length h
      simp only [List.length_append, List.length_cons, List.length_nil] at hlen
      exact List.length_eq_zero_iff.mp (by omega)
    rw [hu, hus] at h
    obtain ⟨rfl, hb⟩ := List.cons.inj h
    exact ⟨ht, hu.trans (by rw [hus]), hb⟩
  · rintro ⟨rfl, ha, hb⟩
    rw [splitArrows_append, ha, hb]
    rfl

/-! ## Reading a spelling again -/

theorem ofSides?_eq_some_iff :
    ofSides? p t = some l ↔
      ∃ a b, t = a ++ '-' :: '>' :: b ∧ ArrowFree a ∧ ArrowFree b ∧ trim a ≠ [] ∧ trim b ≠ [] ∧
        l = ⟨p, trim a, trim b⟩ := by
  unfold ofSides?
  split
  · next a b hsplit =>
    have hpair := hsplit
    rw [splitArrows_eq_pair_iff] at hpair
    obtain ⟨rfl, ha, hb⟩ := hpair
    constructor
    · intro hl
      split at hl
      · cases hl
      · next hne =>
        simp only [Bool.or_eq_true, List.isEmpty_iff, not_or] at hne
        exact ⟨a, b, rfl, ha, hb, hne.1, hne.2, (Option.some.inj hl).symm⟩
    · rintro ⟨c, d, ht, hc, hd, hcne, hdne, rfl⟩
      have hcd : splitArrows (a ++ '-' :: '>' :: b) = [c, d] := by
        rw [splitArrows_eq_pair_iff]
        exact ⟨ht, hc, hd⟩
      obtain ⟨rfl, hbd⟩ := List.cons.inj (hsplit.symm.trans hcd)
      obtain ⟨rfl, -⟩ := List.cons.inj hbd
      simp [hcne, hdne]
  · next hpair =>
    refine ⟨nofun, ?_⟩
    rintro ⟨a, b, ht, ha, hb, -⟩
    refine absurd ?_ (hpair a b)
    rw [splitArrows_eq_pair_iff]
    exact ⟨ht, ha, hb⟩

theorem ofSides?_presence (h : ofSides? p t = some l) : l.presence = p := by
  rw [ofSides?_eq_some_iff] at h
  obtain ⟨a, b, -, -, -, -, -, rfl⟩ := h
  rfl

theorem ofSides?_paths (h : ofSides? p t = some l) :
    (IsTrimmed l.linkPath ∧ l.linkPath ≠ [] ∧ ArrowFree l.linkPath) ∧
      IsTrimmed l.targetPath ∧ l.targetPath ≠ [] ∧ ArrowFree l.targetPath := by
  rw [ofSides?_eq_some_iff] at h
  obtain ⟨a, b, -, ha, hb, hane, hbne, rfl⟩ := h
  exact ⟨⟨isTrimmed_trim a, hane, ha.mono (trim_isInfix a)⟩,
    ⟨isTrimmed_trim b, hbne, hb.mono (trim_isInfix b)⟩⟩

/-- Paths that are trimmed already are found on the two sides of their arrow. -/
theorem ofSides?_append (hl : l.WellFormed) :
    ofSides? l.presence (l.linkPath ++ '-' :: '>' :: l.targetPath) = some l := by
  have hlink := trim_eq_self_iff.mpr hl.linkPath.1
  have htarget := trim_eq_self_iff.mpr hl.targetPath.1
  rw [ofSides?_eq_some_iff]
  refine ⟨l.linkPath, l.targetPath, rfl, hl.linkPath.2.2, hl.targetPath.2.2, ?_, ?_, ?_⟩
  · exact hlink.symm ▸ hl.linkPath.2.1
  · exact htarget.symm ▸ hl.targetPath.2.1
  · rw [hlink, htarget]

/-- Nothing stands before an arrow at the start. -/
theorem ofSides?_arrow (p : Presence) (t : Text) : ofSides? p ('-' :: '>' :: t) = none := by
  rw [Option.eq_none_iff_forall_ne_some]
  intro l hl
  rw [ofSides?_eq_some_iff] at hl
  obtain ⟨a, b, ht, ha, -, hane, -, -⟩ := hl
  cases a with
  | nil => exact hane rfl
  | cons c a =>
      obtain ⟨rfl, hrest⟩ := List.cons.inj ht
      cases a with
      | nil => simp at hrest
      | cons d a =>
          obtain ⟨rfl, -⟩ := List.cons.inj hrest
          rw [arrowFree_iff] at ha
          exact ha ⟨[], a, rfl⟩

theorem ofText?_of_arrow {r : Text} (h : trim t = '-' :: '>' :: r) : ofText? t = none := by
  rw [ofText?, h]
  exact ofSides?_arrow .present r

theorem ofText?_of_minus {r : Text} (h : trim t = '-' :: r) (hr : r.head? ≠ some '>') :
    ofText? t = ofSides? .absent r := by
  rw [ofText?, h]
  split
  · next r' hr' => exact absurd (by rw [(List.cons.inj hr').2]; rfl) hr
  · next r' _ hr' => rw [(List.cons.inj hr').2]
  · next hminus => exact absurd rfl (hminus r)

theorem ofText?_of_kept (h : (trim t).head? ≠ some '-') : ofText? t = ofSides? .present (trim t) := by
  rw [ofText?]
  split
  · next r hr => exact absurd (by rw [hr]; rfl) h
  · next r _ hr => exact absurd (by rw [hr]; rfl) h
  · rfl

theorem head?_linkPath_of_ofSides? (ht : IsTrimmed t) (h : ofSides? p t = some l) :
    l.linkPath.head? = t.head? := by
  rw [ofSides?_eq_some_iff] at h
  obtain ⟨a, b, rfl, -, -, hane, -, rfl⟩ := h
  cases a with
  | nil => exact absurd rfl hane
  | cons c a => exact head?_trim rfl (ht.1 c rfl)

theorem ofText?_wellFormed (h : ofText? t = some l) : l.WellFormed := by
  by_cases hminus : (trim t).head? = some '-'
  · obtain ⟨r, hr⟩ := List.head?_eq_some_iff.mp hminus
    by_cases hgt : r.head? = some '>'
    · obtain ⟨s, rfl⟩ := List.head?_eq_some_iff.mp hgt
      rw [ofText?_of_arrow hr] at h
      cases h
    · rw [ofText?_of_minus hr hgt] at h
      obtain ⟨hlink, htarget⟩ := ofSides?_paths h
      exact ⟨hlink, htarget, fun hp ↦ absurd ((ofSides?_presence h).symm.trans hp) (by decide)⟩
  · rw [ofText?_of_kept hminus] at h
    obtain ⟨hlink, htarget⟩ := ofSides?_paths h
    refine ⟨hlink, htarget, fun _ ↦ ?_⟩
    rw [head?_linkPath_of_ofSides? (isTrimmed_trim t) h]
    exact hminus

theorem isTrimmed_text (h : l.WellFormed) : IsTrimmed l.text := by
  have hsides : IsTrimmed (l.linkPath ++ '-' :: '>' :: l.targetPath) :=
    h.linkPath.1.around (by decide) (.cons (by decide) h.targetPath.1)
  unfold text
  split
  · exact .cons (by decide) hsides
  · exact hsides

/-- A spelling that starts with an arrow is no symlink line. -/
theorem ofText?_text_of_opensWithArrow (h : l.WellFormed) (harrow : l.OpensWithArrow) :
    ofText? l.text = none := by
  obtain ⟨r, hr⟩ := List.head?_eq_some_iff.mp harrow.2
  refine ofText?_of_arrow (r := r ++ '-' :: '>' :: l.targetPath) ?_
  rw [trim_eq_self_iff.mpr (isTrimmed_text h), text, if_pos harrow.1, hr]
  rfl

/-- Any other spelling is read back as the link that was spelled. -/
theorem ofText?_text (h : l.WellFormed) (harrow : ¬ l.OpensWithArrow) : ofText? l.text = some l := by
  have htrim := trim_eq_self_iff.mpr (isTrimmed_text h)
  have hlink := h.linkPath.2.1
  have hhead : (l.linkPath ++ '-' :: '>' :: l.targetPath).head? = l.linkPath.head? := by
    obtain ⟨c, r, hc⟩ := List.exists_cons_of_ne_nil hlink
    rw [hc]
    rfl
  cases hp : l.presence with
  | present =>
      have htext : l.text = l.linkPath ++ '-' :: '>' :: l.targetPath := by simp [text, hp]
      rw [ofText?_of_kept, htrim, htext, ← hp, ofSides?_append h]
      rw [htrim, htext, hhead]
      exact h.kept hp
  | absent =>
      have htext : l.text = '-' :: (l.linkPath ++ '-' :: '>' :: l.targetPath) := by simp [text, hp]
      have hgt : (l.linkPath ++ '-' :: '>' :: l.targetPath).head? ≠ some '>' :=
        fun hgt ↦ harrow ⟨hp, hhead ▸ hgt⟩
      rw [ofText?_of_minus (htrim.trans htext) hgt, ← hp, ofSides?_append h]

/-- A canonical spelling leaves characters out and adds none. -/
theorem text_sublist (h : ofText? t = some l) : l.text.Sublist t := by
  have hsides : ∀ {p s}, ofSides? p s = some l →
      (l.linkPath ++ '-' :: '>' :: l.targetPath).Sublist s := by
    intro p s hs
    rw [ofSides?_eq_some_iff] at hs
    obtain ⟨a, b, rfl, -, -, -, -, rfl⟩ := hs
    exact (trim_sublist a).append (((trim_sublist b).cons_cons '>').cons_cons '-')
  refine List.Sublist.trans ?_ (trim_sublist t)
  by_cases hminus : (trim t).head? = some '-'
  · obtain ⟨r, hr⟩ := List.head?_eq_some_iff.mp hminus
    by_cases hgt : r.head? = some '>'
    · obtain ⟨s, rfl⟩ := List.head?_eq_some_iff.mp hgt
      rw [ofText?_of_arrow hr] at h
      cases h
    · rw [ofText?_of_minus hr hgt] at h
      rw [hr, text, if_pos (ofSides?_presence h)]
      exact (hsides h).cons_cons '-'
  · rw [ofText?_of_kept hminus] at h
    have hp : l.presence ≠ .absent := by simp [ofSides?_presence h]
    rw [text, if_neg hp]
    exact hsides h

theorem head?_text (ht : IsTrimmed t) (h : ofText? t = some l) : l.text.head? = t.head? := by
  have htrim := trim_eq_self_iff.mpr ht
  by_cases hminus : t.head? = some '-'
  · obtain ⟨r, rfl⟩ := List.head?_eq_some_iff.mp hminus
    by_cases hgt : r.head? = some '>'
    · obtain ⟨s, rfl⟩ := List.head?_eq_some_iff.mp hgt
      rw [ofText?_of_arrow htrim] at h
      cases h
    · rw [ofText?_of_minus htrim hgt] at h
      rw [text, if_pos (ofSides?_presence h)]
      rfl
  · rw [ofText?_of_kept (by rw [htrim]; exact hminus), htrim] at h
    obtain ⟨c, r, hlink⟩ := List.exists_cons_of_ne_nil (ofSides?_paths h).1.2.1
    have hp : l.presence ≠ .absent := by simp [ofSides?_presence h]
    rw [← head?_linkPath_of_ofSides? ht h, text, if_neg hp, hlink]
    rfl

end Saltern.LinkLine
