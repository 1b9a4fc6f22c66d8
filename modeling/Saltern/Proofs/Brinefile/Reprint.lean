import Saltern.Proofs.Brinefile.PrintedBody

/-!
# Reading a printed Brinefile

A printed text is cut into the sections it was printed from: the same keywords, each over its
printed body and the empty line that sets the next marker off.
-/

namespace Saltern

open Text

namespace Section

variable {s : Section} {t : Text}

/-- What a section is printed as, with the empty line that stands behind it. -/
def printedOutline (s : Section) : Keyword × List Text := (s.keyword, s.printBody ++ [[]])

/-- A printed body holds no marker. -/
theorem ofRaw_ne_marker_of_mem_printBody (hm : ∀ l ∈ s.lines, l.kind ≠ .marker) (h : t ∈ s.printBody) :
    LineKind.ofRaw t ≠ .marker := by
  by_cases ht : t = []
  · rw [ht]
    decide
  · obtain ⟨l, hl, rfl | ⟨-, rfl⟩⟩ := exists_of_mem_printBody h ht
    · rw [kind_printLine (hm l hl) ht]
      exact hm l hl
    · rw [LineKind.ofRaw_trimSpacesEnd]
      exact hm l hl

/-- A printed line holds only characters of a line of the section, in their order. -/
theorem exists_sublist_of_mem_printBody (hm : ∀ l ∈ s.lines, l.kind ≠ .marker) (h : t ∈ s.printBody)
    (ht : t ≠ []) : ∃ l ∈ s.lines, t.Sublist l.raw := by
  obtain ⟨l, hl, rfl | ⟨-, rfl⟩⟩ := exists_of_mem_printBody h ht
  · exact ⟨l, hl, printLine_sublist s.keyword (hm l hl)⟩
  · exact ⟨l, hl, (trimSpacesEnd_isPrefix l.raw).sublist⟩

end Section

namespace Brinefile

variable {b b' : Brinefile} {t : Text} {e : LineEnding}

/-! ## The printed lines -/

theorem printPreamble_eq (b : Brinefile) :
    b.printPreamble = trimEmptyEdges (b.preamble.map Line.unindented) := by
  have hline : ∀ l : Line, (if l.kind = .blank then [] else l.unindented) = l.unindented := by
    intro l
    split
    · next h => rw [Line.unindented_of_blank h]
    · rfl
  rw [printPreamble, List.map_congr_left fun l _ ↦ hline l]

theorem exists_of_mem_printPreamble (h : t ∈ b.printPreamble) : ∃ l ∈ b.preamble, t = l.unindented := by
  rw [printPreamble_eq] at h
  obtain ⟨l, hl, rfl⟩ := List.mem_map.mp (mem_of_mem_trimEmptyEdges h)
  exact ⟨l, hl, rfl⟩

/-- The printed lines before the first marker; the empty line behind them stands for the end of the
text where no marker follows. -/
def lead (b : Brinefile) : List Text :=
  if b.printPreamble = [] ∧ b.sections ≠ [] then [] else b.printPreamble ++ [[]]

/-- The sections as they are printed. -/
def printedOutlines (b : Brinefile) : List (Keyword × List Text) := b.sections.map Section.printedOutline

theorem mem_lead (h : t ∈ b.lead) : t = [] ∨ t ∈ b.printPreamble := by
  unfold lead at h
  split at h
  · cases h
  · simpa [or_comm] using h

theorem printSections_append_nil {before : List Text} (hne : before ≠ []) (ss : List Section) :
    printSections before ss ++ [[]] =
      before ++ [] :: spell (ss.map Section.printedOutline) := by
  induction ss generalizing before with
  | nil => rfl
  | cons s ss ih =>
      rw [printSections, if_neg (by simpa using hne), ih (by simp [Section.print]), List.map_cons, spell,
        spell, List.flatMap_cons, Section.print]
      simp [Section.printedOutline]

/-- The printed lines, ended by an empty one, are plain lines and spelled sections. -/
theorem printLines_append_nil (b : Brinefile) :
    b.printLines ++ [[]] = b.lead ++ spell b.printedOutlines := by
  unfold lead printedOutlines printLines
  by_cases hp : b.printPreamble = []
  · cases hs : b.sections with
    | nil => simp [printSections, hp, spell]
    | cons s ss =>
        rw [if_pos ⟨hp, List.cons_ne_nil s ss⟩, hp, printSections]
        rw [printSections_append_nil (by simp [Section.print]), List.map_cons, spell, spell,
          List.flatMap_cons, Section.print]
        simp [Section.printedOutline]
  · rw [printSections_append_nil hp, if_neg fun h ↦ hp h.1]
    simp

/-! ## Reading them again -/

theorem map_reread_spell (e : LineEnding) (os : List (Keyword × List Text)) :
    (spell os).map e.reread = spell (os.map fun o ↦ (o.1, o.2.map e.reread)) := by
  have hname : ∀ k : Keyword, e.reread ('%' :: k.name) = '%' :: k.name := by
    intro k
    refine LineEnding.reread_of_ne ?_
    cases k <;> decide
  simp only [spell, List.map_flatMap, List.flatMap_map, List.map_cons, hname]

theorem ofRaw_reread_ne_marker (h : LineKind.ofRaw t ≠ .marker) :
    LineKind.ofRaw (e.reread t) ≠ .marker := by
  rw [ne_eq, LineKind.ofRaw_eq_marker_iff] at h ⊢
  intro hhead
  obtain ⟨r, hr⟩ := e.reread_isPrefix t
  exact h (by rw [← hr, List.head?_append, hhead]; rfl)

theorem ofRaw_ne_marker_of_mem_lead (hb : ofText t = .ok b) {u : Text} (h : u ∈ b.lead) :
    LineKind.ofRaw u ≠ .marker := by
  rcases mem_lead h with rfl | h
  · decide
  · obtain ⟨l, hl, rfl⟩ := exists_of_mem_printPreamble h
    have hm := ((ofText_lines hb).1 l hl).2
    rwa [Line.kind_unindented hm]

theorem ofRaw_ne_marker_of_mem_printedOutlines (hb : ofText t = .ok b) {o : Keyword × List Text}
    (ho : o ∈ b.printedOutlines) {u : Text} (h : u ∈ o.2) : LineKind.ofRaw u ≠ .marker := by
  obtain ⟨s, hs, rfl⟩ := List.mem_map.mp ho
  rcases List.mem_append.mp h with h | h
  · exact Section.ofRaw_ne_marker_of_mem_printBody (fun l hl ↦ ((ofText_lines hb).2 s hs l hl).2) h
  · rw [List.mem_singleton.mp h]
    decide

/-- A printed line is empty, a marker, or has its characters from a line of the text. -/
theorem mem_printLines (hb : ofText t = .ok b) {u : Text} (h : u ∈ b.printLines) :
    u = [] ∨ (∃ s ∈ b.sections, u = '%' :: s.keyword.name) ∨ ∃ l ∈ Text.lines t, u.Sublist l := by
  obtain ⟨hpre, hsec⟩ := ofText_lines hb
  have hmem : u ∈ b.lead ++ spell b.printedOutlines := by
    rw [← printLines_append_nil]
    exact List.mem_append_left _ h
  by_cases hu : u = []
  · exact .inl hu
  refine .inr ?_
  rcases List.mem_append.mp hmem with hlead | hspell
  · obtain ⟨l, hl, rfl⟩ := exists_of_mem_printPreamble ((mem_lead hlead).resolve_left hu)
    exact .inr ⟨l.raw, (hpre l hl).1, l.unindented_sublist⟩
  · obtain ⟨o, ho, huo⟩ := List.mem_flatMap.mp hspell
    obtain ⟨s, hs, rfl⟩ := List.mem_map.mp ho
    rcases List.mem_cons.mp huo with rfl | hbody
    · exact .inl ⟨s, hs, rfl⟩
    · have hprint : u ∈ s.printBody := by simpa [Section.printedOutline, hu] using hbody
      obtain ⟨l, hl, hsub⟩ :=
        Section.exists_sublist_of_mem_printBody (fun l hl ↦ (hsec s hs l hl).2) hprint hu
      exact .inr ⟨l.raw, (hsec s hs l hl).1, hsub⟩

theorem newline_not_mem_printLines (hb : ofText t = .ok b) : ∀ u ∈ b.printLines, '\n' ∉ u := by
  intro u hu
  rcases mem_printLines hb hu with rfl | ⟨s, -, rfl⟩ | ⟨l, hl, hsub⟩
  · simp
  · cases s.keyword <;> decide
  · exact fun hn ↦ newline_not_mem_of_mem_lines hl (hsub.subset hn)

/-- What is cut from the lines of a printed Brinefile, read under the ending they were joined with. -/
structure IsReread (e : LineEnding) (b b' : Brinefile) : Prop where
  preamble : b'.preamble.map Line.raw = b.lead.map e.reread
  sections : b'.sections.map Section.outline = b.printedOutlines.map fun o ↦ (o.1, o.2.map e.reread)

/-- Where no line loses a carriage return the printed lines are found as they are. -/
theorem IsReread.of_kept (h : IsReread e b b') (hkept : ∀ l ∈ b.printLines, e.reread l = l) :
    b'.preamble.map Line.raw = b.lead ∧ b'.sections.map Section.outline = b.printedOutlines := by
  have hline : ∀ l ∈ b.lead ++ spell b.printedOutlines, e.reread l = l := by
    rw [← printLines_append_nil]
    intro l hl
    rcases List.mem_append.mp hl with hl | hl
    · exact hkept l hl
    · rw [List.mem_singleton.mp hl, LineEnding.reread_nil]
  have hid : ∀ {ls : List Text}, (∀ l ∈ ls, e.reread l = l) → ls.map e.reread = ls :=
    fun hls ↦ (List.map_congr_left hls).trans (List.map_id _)
  rw [h.preamble, h.sections]
  refine ⟨hid fun l hl ↦ hline l (List.mem_append_left _ hl), ?_⟩
  refine (List.map_congr_left fun o ho ↦ ?_).trans (List.map_id _)
  rw [hid fun l hl ↦ hline l (List.mem_append_right _ (List.mem_flatMap.mpr
    ⟨o, ho, List.mem_cons_of_mem _ hl⟩))]
  rfl

/-- The printed text is cut into the printed sections. -/
theorem ofText_printed (hb : ofText t = .ok b) (e : LineEnding) :
    ∃ b', ofText (e.joinLines b.printLines) = .ok b' ∧ IsReread e b b' := by
  have hlines : Text.lines (e.joinLines b.printLines) =
      b.lead.map e.reread ++ spell (b.printedOutlines.map fun o ↦ (o.1, o.2.map e.reread)) := by
    rw [LineEnding.lines_joinLines (newline_not_mem_printLines hb), ← map_reread_spell, ← List.map_append,
      ← printLines_append_nil, List.map_append, List.map_singleton, LineEnding.reread_nil]
  have hlead : ∀ u ∈ b.lead.map e.reread, LineKind.ofRaw u ≠ .marker := by
    intro u hu
    obtain ⟨v, hv, rfl⟩ := List.mem_map.mp hu
    exact ofRaw_reread_ne_marker (ofRaw_ne_marker_of_mem_lead hb hv)
  have hbodies : ∀ o ∈ b.printedOutlines.map fun o ↦ (o.1, o.2.map e.reread),
      ∀ u ∈ o.2, LineKind.ofRaw u ≠ .marker := by
    intro _ ho u hu
    obtain ⟨o, hprinted, rfl⟩ := List.mem_map.mp ho
    obtain ⟨v, hv, rfl⟩ := List.mem_map.mp hu
    exact ofRaw_reread_ne_marker (ofRaw_ne_marker_of_mem_printedOutlines hb hprinted hv)
  obtain ⟨preamble, ss, hg, hpre, hout⟩ := gather_spell hlead hbodies 0
  exact ⟨⟨preamble, ss, linesOf (e.joinLines b.printLines)⟩, by rw [ofText, linesOf, hlines, hg],
    ⟨hpre, hout⟩⟩

end Brinefile

end Saltern
