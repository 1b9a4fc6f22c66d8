import Saltern.Brinefile.Layout
import Saltern.Proofs.Text.Edges

/-!
# Canonical spellings

Entries of item, sysctl and symlink sections are printed in a canonical spelling. Reading a
spelling gives back what was spelled, with one exception: the removal of a link whose path starts
with `>` is spelled with an arrow in front, and no symlink line starts with an arrow.
-/

namespace Saltern

namespace Text

variable {t x y : Text} {sep c : Char}

theorem cutAt_eq_none_iff : cutAt sep t = none ↔ sep ∉ t := by
  induction t with
  | nil => simp [cutAt]
  | cons c r ih =>
      unfold cutAt
      by_cases h : c = sep
      · simp [h]
      · simp [h, ih, Ne.symm h]

theorem cutAt_eq_some_iff {a b : Text} :
    cutAt sep t = some (a, b) ↔ t = a ++ sep :: b ∧ sep ∉ a := by
  induction t generalizing a with
  | nil => simp [cutAt]
  | cons c r ih =>
      unfold cutAt
      by_cases h : c = sep
      · subst h
        cases a with
        | nil => simp [eq_comm]
        | cons d a => simp +contextual [eq_comm]
      · rw [if_neg h]
        cases a with
        | nil => simp [h]
        | cons d a =>
            simp only [Option.map_eq_some_iff, Prod.exists, Prod.mk.injEq, List.cons.injEq,
              List.cons_append, List.mem_cons, not_or]
            constructor
            · rintro ⟨a', b', hcut, ⟨rfl, rfl⟩, rfl⟩
              obtain ⟨rfl, hsep⟩ := ih.mp hcut
              exact ⟨⟨rfl, rfl⟩, Ne.symm h, hsep⟩
            · rintro ⟨⟨rfl, hr⟩, -, hsep⟩
              exact ⟨a, b, ih.mpr ⟨hr, hsep⟩, ⟨rfl, rfl⟩, rfl⟩

/-- Trimmed texts around a character that is no blank. -/
theorem IsTrimmed.around (hx : IsTrimmed x) (hc : isBlank c = false) (hy : IsTrimmed y) :
    IsTrimmed (x ++ c :: y) := by
  constructor
  · intro d hd
    cases x with
    | nil => exact (Option.some.inj hd) ▸ hc
    | cons e x => exact hx.1 d hd
  · intro d hd
    rw [List.getLast?_append_of_ne_nil _ (List.cons_ne_nil c y)] at hd
    cases y with
    | nil => exact (Option.some.inj hd) ▸ hc
    | cons e y => exact hy.2 d hd

theorem IsTrimmed.cons (hc : isBlank c = false) (hy : IsTrimmed y) : IsTrimmed (c :: y) :=
  isTrimmed_nil.around hc hy

/-- A text that begins with more than a blank begins the same when it is trimmed. -/
theorem head?_trim (h : t.head? = some c) (hc : isBlank c = false) : (trim t).head? = some c := by
  obtain ⟨r, rfl⟩ := List.head?_eq_some_iff.mp h
  obtain ⟨a, b, ht, ha, -⟩ := exists_eq_trim (c :: r)
  cases a with
  | cons d a =>
      have hd : c = d := (List.cons.inj ht).1
      exact absurd (ha c (hd ▸ List.mem_cons_self)) (by simp [hc])
  | nil =>
      cases hm : trim (c :: r) with
      | nil =>
          exact absurd (trim_eq_nil_iff.mp hm c List.mem_cons_self) (by simp [hc])
      | cons d m =>
          rw [hm] at ht
          exact congrArg some (List.cons.inj ht).1.symm

end Text

open Text

/-! ## Items and settings -/

namespace ItemLine

variable {t x y : Text} {i : ItemLine}

theorem cutValue_eq_none_iff : cutValue t = none ↔ '=' ∉ t := by
  rw [cutValue, Option.map_eq_none_iff, cutAt_eq_none_iff]

theorem cutValue_eq_some_iff :
    cutValue t = some (x, y) ↔ ∃ a b, t = a ++ '=' :: b ∧ '=' ∉ a ∧ trim a = x ∧ trim b = y := by
  simp [cutValue, cutAt_eq_some_iff, and_assoc]

/-- The sides of a first equals sign that are trimmed already. -/
theorem cutValue_append (hx : IsTrimmed x) (hsign : '=' ∉ x) (hy : IsTrimmed y) :
    cutValue (x ++ '=' :: y) = some (x, y) := by
  rw [cutValue_eq_some_iff]
  exact ⟨x, y, rfl, hsign, trim_eq_self_iff.mpr hx, trim_eq_self_iff.mpr hy⟩

theorem cutValue_spec (h : cutValue t = some (x, y)) :
    IsTrimmed x ∧ '=' ∉ x ∧ IsTrimmed y ∧ (x ++ '=' :: y).Sublist t := by
  rw [cutValue_eq_some_iff] at h
  obtain ⟨a, b, rfl, hsign, rfl, rfl⟩ := h
  exact ⟨isTrimmed_trim a, fun hm ↦ hsign (mem_of_mem_trim hm), isTrimmed_trim b,
    (trim_sublist a).append ((trim_sublist b).cons_cons '=')⟩

/-- What an item line is read as: its parts are trimmed, its target has no equals sign, what is not
removed has no minus sign in front, and a value that counts is not empty. -/
def WellFormed : ItemLine → Prop
  | .present target value =>
    IsTrimmed target ∧ '=' ∉ target ∧ target.head? ≠ some '-' ∧ ∀ v ∈ value, IsTrimmed v ∧ v ≠ []
  | .absent target => IsTrimmed target ∧ '=' ∉ target
  | .conflict target value => IsTrimmed target ∧ '=' ∉ target ∧ IsTrimmed value

theorem ofKept_wellFormed (ht : IsTrimmed t) (hminus : t.head? ≠ some '-') : (ofKept t).WellFormed := by
  unfold ofKept
  cases h : cutValue t with
  | none => exact ⟨ht, cutValue_eq_none_iff.mp h, hminus, nofun⟩
  | some p =>
      obtain ⟨x, y⟩ := p
      obtain ⟨hx, hsign, hy, -⟩ := cutValue_spec h
      refine ⟨hx, hsign, ?_, fun v hv ↦ ?_⟩
      · rw [cutValue_eq_some_iff] at h
        obtain ⟨a, b, rfl, -, rfl, -⟩ := h
        intro hhead
        cases a with
        | nil => simp at hhead
        | cons c a =>
            have hc : (trim (c :: a)).head? = some c := head?_trim rfl (ht.1 c rfl)
            exact hminus (by simpa [hc] using hhead)
      · split at hv
        · cases hv
        · next hne => exact Option.some.inj hv ▸ ⟨hy, by simpa using hne⟩

theorem ofRemoved_wellFormed (ht : IsTrimmed t) : (ofRemoved t).WellFormed := by
  unfold ofRemoved
  cases h : cutValue t with
  | none => exact ⟨ht, cutValue_eq_none_iff.mp h⟩
  | some p =>
      obtain ⟨hx, hsign, hy, -⟩ := cutValue_spec h
      exact ⟨hx, hsign, hy⟩

theorem ofText_of_minus {r : Text} (h : trim t = '-' :: r) : ofText t = ofRemoved (trim r) := by
  rw [ofText, h]
  rfl

theorem ofText_of_kept (h : (trim t).head? ≠ some '-') : ofText t = ofKept (trim t) := by
  rw [ofText]
  split
  · next r hr => exact absurd (by rw [hr]; rfl) h
  · rfl

theorem ofText_wellFormed (t : Text) : (ofText t).WellFormed := by
  by_cases h : (trim t).head? = some '-'
  · obtain ⟨r, hr⟩ := List.head?_eq_some_iff.mp h
    exact ofText_of_minus hr ▸ ofRemoved_wellFormed (isTrimmed_trim r)
  · exact ofText_of_kept h ▸ ofKept_wellFormed (isTrimmed_trim t) h

theorem isTrimmed_text (h : i.WellFormed) : IsTrimmed i.text := by
  have hsign : isBlank '=' = false := by decide
  have hminus : isBlank '-' = false := by decide
  cases i with
  | present target value =>
      cases value with
      | none => exact h.1
      | some v => exact h.1.around hsign (h.2.2.2 v rfl).1
  | absent target => exact .cons hminus h.1
  | conflict target value => exact .cons hminus (h.1.around hsign h.2.2)

/-- Reading the canonical spelling of an item line gives the item line back. -/
theorem ofText_text (h : i.WellFormed) : ofText i.text = i := by
  have htrim : trim i.text = i.text := trim_eq_self_iff.mpr (isTrimmed_text h)
  cases i with
  | present target value =>
      cases value with
      | none =>
          obtain ⟨-, hsign, hminus, -⟩ := h
          rw [ofText_of_kept (by rw [htrim]; exact hminus), htrim, ofKept, text,
            cutValue_eq_none_iff.mpr hsign]
      | some v =>
          obtain ⟨htarget, hsign, hminus, hv⟩ := h
          have hhead : (target ++ '=' :: v).head? ≠ some '-' := by
            cases target with
            | nil => simp
            | cons c r => exact hminus
          rw [ofText_of_kept (by rw [htrim]; exact hhead), htrim, ofKept, text,
            cutValue_append htarget hsign (hv v rfl).1]
          simp [(hv v rfl).2]
  | absent target =>
      rw [ofText_of_minus htrim, trim_eq_self_iff.mpr h.1, ofRemoved, cutValue_eq_none_iff.mpr h.2]
  | conflict target value =>
      have hrest : IsTrimmed (target ++ '=' :: value) := h.1.around (by decide) h.2.2
      rw [ofText_of_minus htrim]
      change ofRemoved (trim (target ++ '=' :: value)) = _
      rw [trim_eq_self_iff.mpr hrest, ofRemoved, cutValue_append h.1 h.2.1 h.2.2]

/-- The item lines that are read from their canonical spelling. -/
theorem ofText_text_iff : ofText i.text = i ↔ i.WellFormed :=
  ⟨fun h ↦ h ▸ ofText_wellFormed i.text, ofText_text⟩

theorem text_ofKept_of_cut (h : cutValue t = some (x, y)) :
    (ofKept t).text = if y = [] then x else x ++ '=' :: y := by
  rw [ofKept, h]
  cases y <;> rfl

theorem ofKept_text_sublist (t : Text) : (ofKept t).text.Sublist t := by
  cases h : cutValue t with
  | none =>
      rw [ofKept, h]
      exact .refl t
  | some p =>
      have hsub := (cutValue_spec h).2.2.2
      rw [text_ofKept_of_cut h]
      split
      · exact (List.sublist_append_left _ _).trans hsub
      · exact hsub

theorem ofRemoved_text_sublist (t : Text) : (ofRemoved t).text.Sublist ('-' :: t) := by
  unfold ofRemoved
  cases h : cutValue t with
  | none => exact .refl _
  | some p => exact (cutValue_spec h).2.2.2.cons_cons '-'

/-- A canonical spelling leaves characters out and adds none. -/
theorem text_ofText_sublist (t : Text) : (ofText t).text.Sublist t := by
  refine List.Sublist.trans ?_ (trim_sublist t)
  by_cases h : (trim t).head? = some '-'
  · obtain ⟨r, hr⟩ := List.head?_eq_some_iff.mp h
    rw [ofText_of_minus hr, hr]
    exact (ofRemoved_text_sublist (trim r)).trans ((trim_sublist r).cons_cons '-')
  · exact ofText_of_kept h ▸ ofKept_text_sublist (trim t)

theorem head?_text_ofKept (ht : IsTrimmed t) (h : (ofKept t).text ≠ []) :
    (ofKept t).text.head? = t.head? := by
  cases hcut : cutValue t with
  | none => rw [ofKept, hcut, text]
  | some p =>
      rw [text_ofKept_of_cut hcut] at h ⊢
      obtain ⟨a, b, rfl, -, ha, -⟩ := cutValue_eq_some_iff.mp hcut
      cases a with
      | nil =>
          rw [← ha] at h ⊢
          split
          · next hy => simp [hy] at h
          · rfl
      | cons c a =>
          have hhead : p.1.head? = some c := ha ▸ head?_trim rfl (ht.1 c rfl)
          split <;> simp [hhead]

/-- An item is spelled as nothing only where it is a lone equals sign. -/
theorem text_ofKept_eq_nil_iff (ht : IsTrimmed t) : (ofKept t).text = [] ↔ t = [] ∨ t = ['='] := by
  cases hcut : cutValue t with
  | none =>
      have : t ≠ ['='] := by
        rintro rfl
        exact cutValue_eq_none_iff.mp hcut List.mem_cons_self
      simp [ofKept, hcut, text, this]
  | some p =>
      rw [text_ofKept_of_cut hcut]
      obtain ⟨a, b, rfl, -, ha, hb⟩ := cutValue_eq_some_iff.mp hcut
      -- Blanks beside the sign would be blanks at an edge of a trimmed text.
      have hfront : p.1 = [] → a = [] := by
        intro hnil
        cases a with
        | nil => rfl
        | cons c a =>
            have := trim_eq_nil_iff.mp (ha.trans hnil) c List.mem_cons_self
            simp [ht.1 c rfl] at this
      have hback : p.2 = [] → b = [] := by
        intro hnil
        cases hlast : b.getLast? with
        | none => exact List.getLast?_eq_none_iff.mp hlast
        | some c =>
            have := trim_eq_nil_iff.mp (hb.trans hnil) c (List.mem_of_mem_getLast? hlast)
            simp [ht.2 c (by simp [List.getLast?_append, List.getLast?_cons, hlast])] at this
      constructor
      · intro h
        split at h
        · next hy => simp [hfront h, hback hy]
        · simp at h
      · rintro (h | h)
        · simp at h
        · obtain ⟨rfl, rfl⟩ : a = [] ∧ b = [] := by
            cases a with
            | nil => exact ⟨rfl, by simpa using h⟩
            | cons c a => simp at h
          simp [← ha, ← hb]

theorem head?_text_ofText (ht : IsTrimmed t) (h : (ofText t).text ≠ []) :
    (ofText t).text.head? = t.head? := by
  have htrim := trim_eq_self_iff.mpr ht
  by_cases hminus : t.head? = some '-'
  · obtain ⟨r, rfl⟩ := List.head?_eq_some_iff.mp hminus
    rw [ofText_of_minus htrim]
    unfold ofRemoved
    split <;> rfl
  · rw [ofText_of_kept (by rw [htrim]; exact hminus), htrim] at h ⊢
    exact head?_text_ofKept ht h

theorem text_ofText_eq_nil_iff (ht : IsTrimmed t) : (ofText t).text = [] ↔ t = [] ∨ t = ['='] := by
  have htrim := trim_eq_self_iff.mpr ht
  by_cases hminus : t.head? = some '-'
  · obtain ⟨r, rfl⟩ := List.head?_eq_some_iff.mp hminus
    rw [ofText_of_minus htrim]
    unfold ofRemoved
    split <;> simp [text]
  · rw [ofText_of_kept (by rw [htrim]; exact hminus), htrim]
    exact text_ofKept_eq_nil_iff ht

end ItemLine

namespace Setting

variable {t : Text} {s : Setting}

theorem ofText?_eq_some_iff :
    ofText? t = some s ↔ ItemLine.cutValue (trim t) = some (s.key, s.value) ∧ s.key ≠ [] := by
  unfold ofText?
  cases h : ItemLine.cutValue (trim t) with
  | none => simp
  | some p =>
      obtain ⟨x, y⟩ := p
      obtain ⟨key, value⟩ := s
      cases x <;> simp +contextual [eq_comm]

/-- What a setting is read as: its parts are trimmed, and it has a key, without an equals sign. -/
structure WellFormed (s : Setting) : Prop where
  key : IsTrimmed s.key
  key_ne_nil : s.key ≠ []
  sign : '=' ∉ s.key
  value : IsTrimmed s.value

theorem ofText?_wellFormed (h : ofText? t = some s) : s.WellFormed := by
  obtain ⟨hcut, hkey⟩ := ofText?_eq_some_iff.mp h
  obtain ⟨hx, hsign, hy, -⟩ := ItemLine.cutValue_spec hcut
  exact ⟨hx, hkey, hsign, hy⟩

theorem WellFormed.isTrimmed_text (h : s.WellFormed) : IsTrimmed s.text := h.key.around (by decide) h.value

theorem isTrimmed_text (h : ofText? t = some s) : IsTrimmed s.text := (ofText?_wellFormed h).isTrimmed_text

/-- The settings that are read from their canonical spelling. -/
theorem ofText?_text_iff : ofText? s.text = some s ↔ s.WellFormed := by
  refine ⟨ofText?_wellFormed, fun h ↦ ?_⟩
  rw [ofText?_eq_some_iff, trim_eq_self_iff.mpr h.isTrimmed_text]
  exact ⟨ItemLine.cutValue_append h.key h.sign h.value, h.key_ne_nil⟩

/-- Reading the canonical spelling of a setting gives the setting back. -/
theorem ofText?_text (h : ofText? t = some s) : ofText? s.text = some s :=
  ofText?_text_iff.mpr (ofText?_wellFormed h)

theorem text_sublist (h : ofText? t = some s) : s.text.Sublist t := by
  rw [ofText?_eq_some_iff] at h
  obtain ⟨-, -, -, hsub⟩ := ItemLine.cutValue_spec h.1
  exact hsub.trans (trim_sublist t)

theorem head?_text (ht : IsTrimmed t) (h : ofText? t = some s) : s.text.head? = t.head? := by
  rw [ofText?_eq_some_iff] at h
  obtain ⟨hcut, hkey⟩ := h
  obtain ⟨a, b, htrim, -, ha, -⟩ := ItemLine.cutValue_eq_some_iff.mp hcut
  rw [trim_eq_self_iff.mpr ht] at htrim
  subst htrim
  cases a with
  | nil => exact absurd ha.symm hkey
  | cons c a =>
      have hhead : s.key.head? = some c := ha ▸ head?_trim rfl (ht.1 c rfl)
      simp [text, hhead]

end Setting

/-- What is read of a line is read again of its canonical spelling: the same variant with the same target and value,
and the same key and value. Nothing else can be spelled so that it is read back. -/
theorem spelling_read_back :
    (∀ t, ItemLine.ofText (ItemLine.ofText t).text = ItemLine.ofText t) ∧
      (∀ i, ItemLine.ofText i.text = i ↔ i.WellFormed) ∧
      (∀ t s, Setting.ofText? t = some s → Setting.ofText? s.text = some s) ∧
      ∀ s, Setting.ofText? s.text = some s ↔ s.WellFormed :=
  ⟨fun t ↦ ItemLine.ofText_text (ItemLine.ofText_wellFormed t), fun _ ↦ ItemLine.ofText_text_iff,
    fun _ _ ↦ Setting.ofText?_text, fun _ ↦ Setting.ofText?_text_iff⟩

theorem spelling_read_back_two_signs :
    Setting.ofText? " net.x = -1 = 2 " = some ⟨"net.x", "-1 = 2"⟩ ∧
      Setting.ofText? "net.x=-1 = 2" = some ⟨"net.x", "-1 = 2"⟩ := by
  have hread : Setting.ofText? " net.x = -1 = 2 " = some ⟨"net.x", "-1 = 2"⟩ := by decide
  exact ⟨hread, spelling_read_back.2.2.1 _ _ hread⟩

end Saltern
