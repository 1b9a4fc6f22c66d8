import Saltern.Proofs.Brinefile.LinkSpelling

/-!
# Printed lines

A line of a section is printed as a line of the same kind, or as nothing; a printed line is printed
again as it is; and printing leaves characters out and adds none.
-/

namespace Saltern

open Text

namespace LineKind

variable {raw s : Text}

/-- The kind of a line depends on its trimmed text and on whether a percent sign comes first. -/
theorem ofRaw_congr (ht : trim raw = trim s) (hm : raw.head? = some '%' ↔ s.head? = some '%') :
    ofRaw raw = ofRaw s := by
  simp only [ofRaw, ht, hm]

theorem ofRaw_eq_blank_iff : ofRaw raw = .blank ↔ trim raw = [] := by
  unfold ofRaw
  cases h : trim raw with
  | nil => simp
  | cons c r => by_cases hm : raw.head? = some '%' <;> by_cases hc : c = '#' <;> simp [hm, hc]

theorem trim_ne_nil_of_percent (h : raw.head? = some '%') : trim raw ≠ [] := by
  obtain ⟨r, rfl⟩ := List.head?_eq_some_iff.mp h
  exact fun hnil ↦ absurd (trim_eq_nil_iff.mp hnil '%' List.mem_cons_self) (by decide)

theorem ofRaw_eq_marker_iff : ofRaw raw = .marker ↔ raw.head? = some '%' := by
  constructor
  · unfold ofRaw
    intro h
    by_contra hm
    cases hc : trim raw with
    | nil => simp [hc] at h
    | cons c r => by_cases hc' : c = '#' <;> simp [hc, hm, hc'] at h
  · intro h
    have hne := trim_ne_nil_of_percent h
    simp [ofRaw, h, hne]

theorem ofRaw_eq_entry_iff :
    ofRaw raw = .entry ↔
      trim raw ≠ [] ∧ raw.head? ≠ some '%' ∧ (trim raw).head? ≠ some '#' := by
  unfold ofRaw
  cases hc : trim raw with
  | nil => simp
  | cons c r => by_cases hm : raw.head? = some '%' <;> by_cases hc' : c = '#' <;> simp [hm, hc']

/-- Spaces and tabs at the end do not count. -/
@[simp] theorem ofRaw_trimSpacesEnd (raw : Text) : ofRaw (trimSpacesEnd raw) = ofRaw raw := by
  by_cases h : trim raw = []
  · rw [ofRaw_eq_blank_iff.mpr h, ofRaw_eq_blank_iff, trim_trimSpacesEnd, h]
  · exact ofRaw_congr (trim_trimSpacesEnd raw) (by rw [head?_trimSpacesEnd h])

@[simp] theorem ofRaw_nil : ofRaw [] = .blank := rfl

end LineKind

/-! ## Respelled entries -/

namespace Keyword

variable {k : Keyword} {t : Text}

theorem isTrimmed_respell (k : Keyword) (h : IsTrimmed t) : IsTrimmed (k.respell t) := by
  unfold respell
  split
  · exact ItemLine.isTrimmed_text (ItemLine.ofText_wellFormed t)
  · split
    · cases hl : LinkLine.ofText? t with
      | none => exact h
      | some l => exact LinkLine.isTrimmed_text (LinkLine.ofText?_wellFormed hl)
    · split
      · cases hs : Setting.ofText? t with
        | none => exact h
        | some s => exact Setting.isTrimmed_text hs
      · exact h

/-- An entry that was respelled stays as it is. -/
theorem respell_respell (k : Keyword) (t : Text) : k.respell (k.respell t) = k.respell t := by
  unfold respell
  split
  · rw [ItemLine.ofText_text (ItemLine.ofText_wellFormed t)]
  · split
    · cases hl : LinkLine.ofText? t with
      | none => simp [hl]
      | some l =>
          have hw := LinkLine.ofText?_wellFormed hl
          by_cases harrow : l.OpensWithArrow
          · simp [LinkLine.ofText?_text_of_opensWithArrow hw harrow]
          · simp [LinkLine.ofText?_text hw harrow]
    · split
      · cases hs : Setting.ofText? t with
        | none => simp [hs]
        | some s => simp [Setting.ofText?_text hs]
      · rfl

/-- Respelling leaves characters out and adds none. -/
theorem respell_sublist (k : Keyword) (t : Text) : (k.respell t).Sublist t := by
  unfold respell
  split
  · exact ItemLine.text_ofText_sublist t
  · split
    · cases hl : LinkLine.ofText? t with
      | none => exact .refl t
      | some l => exact LinkLine.text_sublist hl
    · split
      · cases hs : Setting.ofText? t with
        | none => exact .refl t
        | some s => exact Setting.text_sublist hs
      · exact .refl t

end Keyword

namespace Keyword

variable {k : Keyword} {t : Text}

/-- A respelled entry begins with the character that the entry begins with. -/
theorem head?_respell (ht : IsTrimmed t) (h : k.respell t ≠ []) : (k.respell t).head? = t.head? := by
  unfold respell at h ⊢
  split
  · next hk =>
    rw [if_pos hk] at h
    exact ItemLine.head?_text_ofText ht h
  · split
    · cases hl : LinkLine.ofText? t with
      | none => rfl
      | some l => exact LinkLine.head?_text ht hl
    · split
      · cases hs : Setting.ofText? t with
        | none => rfl
        | some s => exact Setting.head?_text ht hs
      · rfl

/-- Only a lone equals sign among items is respelled as nothing. -/
theorem respell_eq_nil_iff (ht : IsTrimmed t) :
    k.respell t = [] ↔ t = [] ∨ k.holdsItems = true ∧ t = ['='] := by
  cases hk : k.holdsItems with
  | true => simp [respell, hk, ItemLine.text_ofText_eq_nil_iff ht]
  | false =>
      -- Elsewhere a spelling has a path or a key and is not empty.
      have hnil : k.respell t = [] ↔ t = [] := by
        unfold respell
        rw [hk, if_neg Bool.false_ne_true]
        split
        · cases hl : LinkLine.ofText? t with
          | none => rfl
          | some l =>
              have hhead := LinkLine.head?_text ht hl
              rw [← List.head?_eq_none_iff, ← List.head?_eq_none_iff, ← hhead]
              rfl
        · split
          · cases hs : Setting.ofText? t with
            | none => rfl
            | some s =>
                have hhead := Setting.head?_text ht hs
                rw [← List.head?_eq_none_iff, ← List.head?_eq_none_iff, ← hhead]
                rfl
          · rfl
      simp [hnil]

end Keyword

/-! ## Lines -/

namespace Line

variable {l m : Line}

theorem unindented_of_percent (h : l.content.head? = some '%') :
    l.unindented = trimSpacesEnd l.raw := if_pos h

theorem unindented_of_ne_percent (h : l.content.head? ≠ some '%') : l.unindented = l.content :=
  if_neg h

theorem isTrimmed_content (l : Line) : IsTrimmed l.content := isTrimmed_trim l.raw

@[simp] theorem trim_content (l : Line) : trim l.content = l.content := trim_trim l.raw

/-- A line that is no marker keeps its kind when it loses its indentation. -/
theorem kind_unindented (h : l.kind ≠ .marker) : LineKind.ofRaw l.unindented = l.kind := by
  by_cases hp : l.content.head? = some '%'
  · rw [unindented_of_percent hp, LineKind.ofRaw_trimSpacesEnd, kind]
  · have hraw : l.raw.head? ≠ some '%' := fun hr ↦ h (LineKind.ofRaw_eq_marker_iff.mpr hr)
    rw [unindented_of_ne_percent hp, kind]
    exact LineKind.ofRaw_congr (trim_content l) (by simp [hp, hraw])

@[simp] theorem trim_unindented (l : Line) : trim l.unindented = l.content := by
  unfold unindented
  split
  · exact trim_trimSpacesEnd l.raw
  · exact trim_content l

theorem unindented_of_raw_eq (h : m.raw = l.unindented) : m.unindented = l.unindented := by
  have hcontent : m.content = l.content := by rw [content, h, trim_unindented]
  by_cases hp : l.content.head? = some '%'
  · rw [unindented_of_percent hp] at h ⊢
    rw [unindented_of_percent (hcontent ▸ hp), h, trimSpacesEnd_trimSpacesEnd]
  · rw [unindented_of_ne_percent hp, unindented_of_ne_percent (hcontent ▸ hp), hcontent]

theorem unindented_sublist (l : Line) : l.unindented.Sublist l.raw := by
  unfold unindented
  split
  · exact (trimSpacesEnd_isPrefix l.raw).sublist
  · exact trim_sublist l.raw

theorem unindented_of_blank (h : l.kind = .blank) : l.unindented = [] := by
  have hcontent : l.content = [] := LineKind.ofRaw_eq_blank_iff.mp h
  rw [unindented_of_ne_percent (by simp [hcontent]), hcontent]

end Line

/-- The content of a printed entry: only what starts with a percent sign is not respelled. -/
def Keyword.respellContent (k : Keyword) (content : Text) : Text :=
  if content.head? = some '%' then content else k.respell content

namespace Section

variable {k : Keyword} {l m : Line}

/-- Entries are respelled, unless they start with a percent sign. -/
theorem printLine_of_entry (h : l.kind = .entry) (hp : l.content.head? ≠ some '%') :
    printLine k l = k.respell l.content := by
  simp only [printLine, h, if_neg hp]

/-- All other lines only lose their indentation. -/
theorem printLine_of_not_respelled (h : l.kind = .entry → l.content.head? = some '%')
    (hm : l.kind ≠ .marker) : printLine k l = l.unindented := by
  unfold printLine
  split
  · next hk => rw [if_pos (h hk)]
  · next hk =>
    refine (Line.unindented_of_ne_percent fun hp ↦ ?_).symm
    -- What starts with a percent sign further in is an entry.
    have hraw : l.raw.head? ≠ some '%' := fun hr ↦ hm (LineKind.ofRaw_eq_marker_iff.mpr hr)
    have hc : Text.trim l.raw ≠ [] := by
      intro hnil
      rw [Line.content, hnil] at hp
      cases hp
    have hhash : (Text.trim l.raw).head? ≠ some '#' := by
      rw [← Line.content, hp]
      decide
    exact hk (LineKind.ofRaw_eq_entry_iff.mpr ⟨hc, hraw, hhash⟩)

theorem printLine_eq (hm : l.kind ≠ .marker) :
    (printLine k l = k.respell l.content ∧ l.kind = .entry ∧ l.content.head? ≠ some '%') ∨
      (printLine k l = l.unindented ∧ (l.kind = .entry → l.content.head? = some '%')) := by
  by_cases h : l.kind = .entry ∧ l.content.head? ≠ some '%'
  · exact .inl ⟨printLine_of_entry h.1 h.2, h⟩
  · have himp : l.kind = .entry → l.content.head? = some '%' :=
      fun hk ↦ by_contra fun hp ↦ h ⟨hk, hp⟩
    exact .inr ⟨printLine_of_not_respelled himp hm, himp⟩

/-- A respelled entry is an entry again, if it is anything. -/
theorem kind_respell (h : l.kind = .entry) (hp : l.content.head? ≠ some '%')
    (hne : k.respell l.content ≠ []) : LineKind.ofRaw (k.respell l.content) = .entry := by
  have htrim := trim_eq_self_iff.mpr (k.isTrimmed_respell l.isTrimmed_content)
  have hhead := k.head?_respell l.isTrimmed_content hne
  rw [LineKind.ofRaw_eq_entry_iff, htrim, hhead]
  exact ⟨hne, hp, (LineKind.ofRaw_eq_entry_iff.mp h).2.2⟩

/-- A printed line is of the kind of the line it was printed from, if it is anything. -/
theorem kind_printLine (hm : l.kind ≠ .marker) (hne : printLine k l ≠ []) :
    LineKind.ofRaw (printLine k l) = l.kind := by
  rcases printLine_eq (k := k) hm with ⟨h, hk, hp⟩ | ⟨h, -⟩
  · rw [h] at hne ⊢
    rw [kind_respell hk hp hne, hk]
  · rw [h, Line.kind_unindented hm]

/-- A printed line is printed again as it is. -/
theorem printLine_of_raw_eq (hm : l.kind ≠ .marker) (hraw : m.raw = printLine k l) :
    printLine k m = printLine k l := by
  have hkm : m.kind = LineKind.ofRaw (printLine k l) := by rw [Line.kind, hraw]
  rcases printLine_eq (k := k) hm with ⟨h, hk, hp⟩ | ⟨h, himp⟩
  · have hcontent : m.content = k.respell l.content := by
      rw [Line.content, hraw, h, trim_eq_self_iff.mpr (k.isTrimmed_respell l.isTrimmed_content)]
    by_cases hnil : k.respell l.content = []
    · rw [printLine_of_not_respelled (by rw [hkm, h, hnil]; nofun) (by rw [hkm, h, hnil]; decide)]
      rw [Line.unindented_of_blank (by rw [hkm, h, hnil]; rfl), h, hnil]
    · have hkind : m.kind = .entry := by rw [hkm, h, kind_respell hk hp hnil]
      have hhead : m.content.head? ≠ some '%' := by
        rw [hcontent, k.head?_respell l.isTrimmed_content hnil]
        exact hp
      rw [printLine_of_entry hkind hhead, hcontent, h, k.respell_respell]
  · have hkind : m.kind = l.kind := by rw [hkm, h, Line.kind_unindented hm]
    have hcontent : m.content = l.content := by rw [Line.content, hraw, h, Line.trim_unindented]
    rw [printLine_of_not_respelled (by rw [hkind, hcontent]; exact himp) (hkind ▸ hm), h]
    exact Line.unindented_of_raw_eq (hraw.trans h)

/-- Printing a line leaves characters out and adds none. -/
theorem printLine_sublist (k : Keyword) (hm : l.kind ≠ .marker) : (printLine k l).Sublist l.raw := by
  rcases printLine_eq (k := k) hm with ⟨h, -⟩ | ⟨h, -⟩
  · exact h ▸ (k.respell_sublist l.content).trans (trim_sublist l.raw)
  · exact h ▸ l.unindented_sublist

/-- The content of a printed entry. -/
theorem trim_printLine (h : l.kind = .entry) : trim (printLine k l) = k.respellContent l.content := by
  unfold Keyword.respellContent
  split
  · next hp =>
    rw [printLine_of_not_respelled (fun _ ↦ hp) (by simp [h]), Line.trim_unindented]
  · next hp =>
    rw [printLine_of_entry h hp, trim_eq_self_iff.mpr (k.isTrimmed_respell l.isTrimmed_content)]

end Section

end Saltern
