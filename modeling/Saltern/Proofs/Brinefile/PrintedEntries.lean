import Saltern.Brinefile.Contents
import Saltern.Proofs.Brinefile.Reprint

/-!
# Printed entries

What the entries and comments of a Brinefile are once it is printed: comments stay, and so does
every entry but for its spelling, which is read as the same item or setting.
-/

namespace Saltern

open Text

/-! ## Respelled entries are read alike -/

namespace Keyword

variable {k : Keyword} {t : Text}

theorem respellContent_of_percent (h : t.head? = some '%') : k.respellContent t = t := if_pos h

theorem respellContent_of_ne_percent (h : t.head? ≠ some '%') : k.respellContent t = k.respell t :=
  if_neg h

/-- Only items, symlinks and settings are respelled. -/
theorem respellContent_of_plain (hitems : k.holdsItems = false) (hlinks : k ≠ .symlinks)
    (hsettings : k ≠ .sysctl) (t : Text) : k.respellContent t = t := by
  unfold respellContent respell
  simp [hitems, hlinks, hsettings]

theorem itemLine_respellContent (hk : k.holdsItems = true) (t : Text) :
    ItemLine.ofText (k.respellContent t) = ItemLine.ofText t := by
  by_cases hp : t.head? = some '%'
  · rw [respellContent_of_percent hp]
  · rw [respellContent_of_ne_percent hp, respell, if_pos hk]
    exact ItemLine.ofText_text (ItemLine.ofText_wellFormed t)

theorem setting_respellContent {s : Setting} (h : Setting.ofText? t = some s) :
    Setting.ofText? (respellContent .sysctl t) = some s := by
  by_cases hp : t.head? = some '%'
  · rw [respellContent_of_percent hp, h]
  · have hrespell : respell .sysctl t = s.text := by simp [respell, holdsItems, h]
    rw [respellContent_of_ne_percent hp, hrespell, Setting.ofText?_text h]

/-- What is no setting is not respelled. -/
theorem respellContent_of_no_setting (h : Setting.ofText? t = none) : respellContent .sysctl t = t := by
  simp [respellContent, respell, holdsItems, h]

theorem respell_symlinks {l : LinkLine} (h : LinkLine.ofText? t = some l) : respell .symlinks t = l.text := by
  simp [respell, holdsItems, h]

/-- What is no symlink is not respelled. -/
theorem respellContent_of_no_link (h : LinkLine.ofText? t = none) : respellContent .symlinks t = t := by
  simp [respellContent, respell, holdsItems, h]

theorem linkLine_respellContent {l : LinkLine} (h : LinkLine.ofText? t = some l)
    (harrow : ¬ l.OpensWithArrow) : LinkLine.ofText? (respellContent .symlinks t) = some l := by
  by_cases hp : t.head? = some '%'
  · rw [respellContent_of_percent hp, h]
  · rw [respellContent_of_ne_percent hp, respell_symlinks h]
    exact LinkLine.ofText?_text (LinkLine.ofText?_wellFormed h) harrow

/-- A removed symlink with an angle bracket in front is not read again. -/
theorem linkLine_respellContent_of_arrow {l : LinkLine} (ht : IsTrimmed t)
    (h : LinkLine.ofText? t = some l) (harrow : l.OpensWithArrow) :
    LinkLine.ofText? (respellContent .symlinks t) = none := by
  have hp : t.head? ≠ some '%' := by
    rw [← LinkLine.head?_text ht h, LinkLine.text, if_pos harrow.1]
    simp
  rw [respellContent_of_ne_percent hp, respell_symlinks h]
  exact LinkLine.ofText?_text_of_opensWithArrow (LinkLine.ofText?_wellFormed h) harrow

/-- Only a lone equals sign among items is respelled as nothing. -/
theorem respellContent_eq_nil_iff (ht : IsTrimmed t) :
    k.respellContent t = [] ↔ t = [] ∨ k.holdsItems = true ∧ t = ['='] := by
  by_cases hp : t.head? = some '%'
  · obtain ⟨r, rfl⟩ := List.head?_eq_some_iff.mp hp
    simp [respellContent_of_percent hp]
  · rw [respellContent_of_ne_percent hp, respell_eq_nil_iff ht]

end Keyword

/-! ## Lines of one kind -/

namespace LineKind

/-- The trimmed texts of the lines of one kind. -/
def contents (kind : LineKind) (raws : List Text) : List Text :=
  (raws.filter fun t ↦ ofRaw t = kind).map trim

variable {kind : LineKind} {raws raws' : List Text} {t : Text}

theorem contents_cons_of_eq (h : ofRaw t = kind) : kind.contents (t :: raws) = trim t :: kind.contents raws := by
  simp [contents, h]

theorem contents_cons_of_ne (h : ofRaw t ≠ kind) : kind.contents (t :: raws) = kind.contents raws := by
  simp [contents, h]

@[simp] theorem contents_append (kind : LineKind) (raws raws' : List Text) :
    kind.contents (raws ++ raws') = kind.contents raws ++ kind.contents raws' := by
  simp [contents]

/-- Empty lines are of no account to the lines of another kind. -/
theorem contents_singleton_nil (h : kind ≠ .blank) : kind.contents [[]] = [] :=
  contents_cons_of_ne (by simpa using h.symm)

theorem contents_trimEmptyEdges (h : kind ≠ .blank) (raws : List Text) :
    kind.contents (trimEmptyEdges raws) = kind.contents raws := by
  rw [contents, filter_trimEmptyEdges (decide_eq_false h.symm), contents]

/-- The lines of one kind stay where every line keeps its kind and its content. -/
theorem contents_map {α : Type} {f g : α → Text} {as : List α}
    (h : ∀ a ∈ as, ofRaw (f a) = kind ∨ ofRaw (g a) = kind →
      ofRaw (f a) = ofRaw (g a) ∧ trim (f a) = trim (g a)) :
    kind.contents (as.map f) = kind.contents (as.map g) := by
  induction as with
  | nil => rfl
  | cons a as ih =>
      obtain ⟨ha, has⟩ := List.forall_mem_cons.mp h
      rw [List.map_cons, List.map_cons]
      by_cases hf : ofRaw (f a) = kind
      · obtain ⟨hkind, htrim⟩ := ha (.inl hf)
        rw [contents_cons_of_eq hf, contents_cons_of_eq (hkind ▸ hf), htrim, ih has]
      · have hg : ofRaw (g a) ≠ kind := fun hg ↦ hf ((ha (.inr hg)).1.trans hg)
        rw [contents_cons_of_ne hf, contents_cons_of_ne hg, ih has]

end LineKind

/-! ## Sections -/

namespace Section

variable {s s' : Section} {l : Line} {k : Keyword}

/-- The comments of a section, one value a line. -/
def comments (s : Section) : List Text := LineKind.comment.contents s.raws

theorem values_eq (s : Section) : s.values = LineKind.entry.contents s.raws := by
  rw [values, entries, raws, LineKind.contents, List.filter_map, List.map_map]
  rfl

theorem contents_printBody_of_readme {kind : LineKind} (hkind : kind ≠ .blank) (hk : s.keyword = .readme) :
    kind.contents s.printBody = kind.contents s.raws := by
  rw [printBody_of_readme hk, LineKind.contents_trimEmptyEdges hkind]
  conv => rhs; rw [← List.map_id s.raws]
  exact LineKind.contents_map fun t _ _ ↦ ⟨LineKind.ofRaw_trimSpacesEnd t, trim_trimSpacesEnd t⟩

theorem contents_printBody_of_ne_readme {kind : LineKind} (hkind : kind ≠ .blank) (hk : s.keyword ≠ .readme) :
    kind.contents s.printBody = kind.contents (s.lines.map (printLine s.keyword)) := by
  rw [LineKind.contents, filter_printBody (decide_eq_false hkind.symm) hk, LineKind.contents]

/-- Printing keeps the comments. -/
theorem comments_printBody (hm : ∀ l ∈ s.lines, l.kind ≠ .marker) :
    LineKind.comment.contents s.printBody = s.comments := by
  by_cases hk : s.keyword = .readme
  · exact contents_printBody_of_readme (by decide) hk
  rw [contents_printBody_of_ne_readme (by decide) hk, comments, raws]
  refine LineKind.contents_map fun l hl hcomment ↦ ?_
  by_cases hentry : l.kind = .entry
  · -- A printed entry is an entry or nothing.
    refine absurd hcomment (not_or.mpr ⟨fun h ↦ ?_, fun h ↦ by cases hentry.symm.trans h⟩)
    by_cases hnil : printLine s.keyword l = []
    · rw [hnil] at h
      cases h
    · cases (kind_printLine (hm l hl) hnil).symm.trans h |>.symm.trans hentry
  · rw [printLine_of_not_respelled (fun h ↦ absurd h hentry) (hm l hl)]
    exact ⟨Line.kind_unindented (hm l hl), l.trim_unindented⟩

/-- Printed one by one, the entries are respelled, and some are printed as nothing. -/
theorem entries_map_printLine (hm : ∀ l ∈ s.lines, l.kind ≠ .marker) :
    LineKind.entry.contents (s.lines.map (printLine s.keyword)) =
      (s.values.map s.keyword.respellContent).filter (!·.isEmpty) := by
  rw [values, entries]
  generalize s.lines = ls at hm ⊢
  induction ls with
  | nil => rfl
  | cons l ls ih =>
      obtain ⟨hl, hls⟩ := List.forall_mem_cons.mp hm
      have ih := ih hls
      rw [List.map_cons]
      by_cases hentry : l.kind = .entry
      · have htrim := trim_printLine (k := s.keyword) hentry
        rw [List.filter_cons_of_pos (by simpa using hentry), List.map_cons, List.map_cons]
        by_cases hnil : printLine s.keyword l = []
        · have hvalue : s.keyword.respellContent l.content = [] := by rw [← htrim, hnil, trim_nil]
          rw [hnil, LineKind.contents_cons_of_ne (by decide), ih, hvalue]
          rfl
        · have hkind := (kind_printLine hl hnil).trans hentry
          have hne : s.keyword.respellContent l.content ≠ [] :=
            htrim ▸ (LineKind.ofRaw_eq_entry_iff.mp hkind).1
          rw [LineKind.contents_cons_of_eq hkind, ih, htrim, List.filter_cons_of_pos (by simpa using hne)]
      · have hkind : LineKind.ofRaw (printLine s.keyword l) ≠ .entry := by
          rwa [printLine_of_not_respelled (fun h ↦ absurd h hentry) hl, Line.kind_unindented hl]
        rw [LineKind.contents_cons_of_ne hkind, ih, List.filter_cons_of_neg (by simpa using hentry)]

theorem isTrimmed_of_mem_values {v : Text} (h : v ∈ s.values) : IsTrimmed v := by
  obtain ⟨l, -, rfl⟩ := List.mem_map.mp h
  exact l.isTrimmed_content

theorem ne_nil_of_mem_values {v : Text} (h : v ∈ s.values) : v ≠ [] := by
  obtain ⟨l, hl, rfl⟩ := List.mem_map.mp h
  have hkind : l.kind = .entry := by simpa using (List.mem_filter.mp hl).2
  exact (LineKind.ofRaw_eq_entry_iff.mp hkind).1

/-- Only a lone equals sign among items is printed as nothing. -/
theorem filter_respellContent (h : s.keyword.holdsItems = true → ['='] ∉ s.values) :
    (s.values.map s.keyword.respellContent).filter (!·.isEmpty) = s.values.map s.keyword.respellContent := by
  rw [List.filter_eq_self]
  intro v hv
  obtain ⟨u, hu, rfl⟩ := List.mem_map.mp hv
  have hne : s.keyword.respellContent u ≠ [] := by
    rw [ne_eq, Keyword.respellContent_eq_nil_iff (isTrimmed_of_mem_values hu)]
    rintro (hnil | ⟨hitems, rfl⟩)
    · exact ne_nil_of_mem_values hu hnil
    · exact h hitems hu
  simpa using hne

/-- Printing keeps the entries, respelled, but for those printed as nothing. -/
theorem entries_printBody (hm : ∀ l ∈ s.lines, l.kind ≠ .marker) :
    LineKind.entry.contents s.printBody =
      (s.values.map s.keyword.respellContent).filter (!·.isEmpty) := by
  by_cases hk : s.keyword = .readme
  · have hsame : s.values.map s.keyword.respellContent = s.values := by
      rw [hk]
      refine (List.map_congr_left fun t _ ↦ ?_).trans (List.map_id _)
      exact Keyword.respellContent_of_plain rfl (by decide) (by decide) t
    rw [filter_respellContent (by rw [hk]; nofun), contents_printBody_of_readme (by decide) hk, hsame,
      ← values_eq]
  · rw [contents_printBody_of_ne_readme (by decide) hk, entries_map_printLine hm]

end Section

end Saltern
