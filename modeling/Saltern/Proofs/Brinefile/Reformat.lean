import Mathlib.Data.List.Flatten
import Saltern.Proofs.Brinefile.Gaps
import Saltern.Proofs.Brinefile.Reprint

/-!
# Formatting twice

A formatted text is in canonical layout, up to two slips: a lone equals sign behind a gap among
items, and carriage returns left at the end of printed lines.
-/

namespace Saltern

open Text

namespace Section

variable {k : Keyword} {b : Bool} {ls : List Line} {s : Section}

theorem flatten_squeeze_sublist (hm : ∀ l ∈ ls, l.kind ≠ .marker) :
    (squeeze k b ls).flatten.Sublist (ls.map Line.raw).flatten := by
  induction ls generalizing b with
  | nil => exact .refl []
  | cons l ls ih =>
      obtain ⟨hl, hls⟩ := List.forall_mem_cons.mp hm
      rw [List.map_cons, List.flatten_cons]
      by_cases hblank : l.kind = .blank
      · have hempty : (if b then [[]] else [] : List Text).flatten = [] := by cases b <;> rfl
        rw [squeeze_cons_of_blank hblank, List.flatten_append, hempty]
        exact (ih hls).trans (List.sublist_append_right _ _)
      · rw [squeeze_cons_of_ne_blank hblank, List.flatten_cons]
        exact (printLine_sublist k hl).append (ih hls)

/-- A printed body leaves characters out and adds none. -/
theorem flatten_printBody_sublist (hm : ∀ l ∈ s.lines, l.kind ≠ .marker) :
    s.printBody.flatten.Sublist s.raws.flatten := by
  by_cases hk : s.keyword = .readme
  · rw [printBody_of_readme hk]
    refine (stripEdges_sublist List.isEmpty _).flatten.trans ?_
    rw [← List.flatMap_def, List.flatten_eq_flatMap]
    exact List.Sublist.flatMap_right s.raws fun t _ ↦ (trimSpacesEnd_isPrefix t).sublist
  · rw [printBody_of_ne_readme hk]
    exact (stripEdges_sublist List.isEmpty _).flatten.trans (flatten_squeeze_sublist hm)

/-- A body is printed again as it is unless a lone equals sign doubles a gap. -/
theorem printBody_printed_iff_doublesGap {s' : Section} (hm : ∀ l ∈ s.lines, l.kind ≠ .marker)
    (h : s'.outline = s.printedOutline) : s'.printedOutline = s.printedOutline ↔ ¬ s.DoublesGap := by
  obtain ⟨hkey, hraws⟩ := Prod.mk.inj h
  have hprint : s'.printedOutline = s.printedOutline ↔ s'.printBody = s.printBody := by
    simp [printedOutline, hkey]
  rw [hprint]
  by_cases hk : s.keyword = .readme
  · refine iff_of_true (printBody_printed_of_readme hk hkey hraws) fun hgap ↦ ?_
    have := hgap.1
    rw [hk] at this
    cases this
  · rw [printBody_printed_iff hk hm hkey hraws, noDoubleEmpty_printBody_iff hk hm]

theorem printed_iff_doublesGap {ss ss' : List Section} (hm : ∀ s ∈ ss, ∀ l ∈ s.lines, l.kind ≠ .marker)
    (h : ss'.map outline = ss.map printedOutline) :
    ss'.map printedOutline = ss.map printedOutline ↔ ∀ s ∈ ss, ¬ s.DoublesGap := by
  induction ss generalizing ss' with
  | nil =>
      rw [List.map_nil, List.map_eq_nil_iff] at h
      simp [h]
  | cons s ss ih =>
      obtain ⟨s', ss', rfl, hs, hss⟩ := List.map_eq_cons_iff.mp h
      obtain ⟨hms, hmss⟩ := List.forall_mem_cons.mp hm
      rw [List.map_cons, List.map_cons, List.cons.injEq, List.forall_mem_cons,
        printBody_printed_iff_doublesGap hms hs, ih hmss hss]

end Section

namespace Brinefile

variable {b b' : Brinefile} {t t' : Text} {e : LineEnding}

/-! ## The printed lines tell what was printed -/

theorem trimEmptyEdges_lead (b : Brinefile) : trimEmptyEdges b.lead = b.printPreamble := by
  have hedges : trimEmptyEdges b.printPreamble = b.printPreamble := by
    rw [printPreamble_eq, trimEmptyEdges_trimEmptyEdges]
  unfold lead
  split
  · next h => exact h.1.symm
  · rw [trimEmptyEdges_append_nil, hedges]

/-- Printed lines are the same where the same preamble and the same sections are printed. -/
theorem printLines_eq_iff (hb : ofText t = .ok b) (hb' : ofText t' = .ok b') :
    b'.printLines = b.printLines ↔
      b'.printPreamble = b.printPreamble ∧ b'.printedOutlines = b.printedOutlines := by
  have hcut : ∀ {t : Text} {b : Brinefile}, ofText t = .ok b → ∃ preamble ss,
      gather (Line.numberedFrom 0 (b.printLines ++ [[]])) = .ok (preamble, ss) ∧
        preamble.map Line.raw = b.lead ∧ ss.map Section.outline = b.printedOutlines := by
    intro t b hb
    rw [printLines_append_nil]
    exact gather_spell (fun u hu ↦ ofRaw_ne_marker_of_mem_lead hb hu)
      (fun o ho u hu ↦ ofRaw_ne_marker_of_mem_printedOutlines hb ho hu) 0
  constructor
  · intro h
    obtain ⟨preamble, ss, hg, hlead, hout⟩ := hcut hb
    obtain ⟨preamble', ss', hg', hlead', hout'⟩ := hcut hb'
    rw [h, hg] at hg'
    cases hg'
    refine ⟨?_, hout'.symm.trans hout⟩
    rw [← trimEmptyEdges_lead, ← trimEmptyEdges_lead, ← hlead', hlead]
  · rintro ⟨hpre, hout⟩
    have hnil : b'.sections = [] ↔ b.sections = [] := by
      unfold printedOutlines at hout
      rw [← List.map_eq_nil_iff (f := Section.printedOutline), hout, List.map_eq_nil_iff]
    have hended : b'.printLines ++ [[]] = b.printLines ++ [[]] := by
      rw [printLines_append_nil, printLines_append_nil, hout, lead, lead, hpre]
      simp only [ne_eq, hnil]
    exact List.append_cancel_right hended

/-- Leaving a printed Brinefile's lines out or shortening them takes characters away. -/
theorem flatten_printLines_sublist (hb : ofText t = .ok b) :
    b.printLines.flatten.Sublist
      (b.preamble.map Line.raw ++ spell (b.sections.map Section.outline)).flatten := by
  obtain ⟨-, hsec⟩ := ofText_lines hb
  have hlead : b.lead.flatten.Sublist (b.preamble.map Line.raw).flatten := by
    have hpre : b.printPreamble.flatten.Sublist (b.preamble.map Line.raw).flatten := by
      rw [printPreamble_eq]
      refine (stripEdges_sublist List.isEmpty _).flatten.trans ?_
      rw [← List.flatMap_def, ← List.flatMap_def]
      exact List.Sublist.flatMap_right b.preamble fun l _ ↦ l.unindented_sublist
    unfold lead
    split
    · exact List.nil_sublist _
    · simpa using hpre
  have hspell : (spell b.printedOutlines).flatten.Sublist
      (spell (b.sections.map Section.outline)).flatten := by
    have hflat : ∀ os, (spell os).flatten = os.flatMap fun o ↦ '%' :: o.1.name ++ o.2.flatten := by
      intro os
      induction os with
      | nil => rfl
      | cons o os ih =>
          rw [spell, List.flatMap_cons, List.flatten_append, ← spell, ih]
          rfl
    rw [hflat, hflat, printedOutlines, List.flatMap_map, List.flatMap_map]
    refine List.Sublist.flatMap_right b.sections fun s hs ↦ (List.Sublist.refl _).append ?_
    have := Section.flatten_printBody_sublist fun l hl ↦ (hsec s hs l hl).2
    simpa [Section.printedOutline, Section.outline] using this
  have hlines : b.printLines.flatten = (b.printLines ++ [[]]).flatten := by simp
  rw [hlines, printLines_append_nil, List.flatten_append, List.flatten_append]
  exact hlead.append hspell

/-! ## Lines that keep their carriage returns -/

/-- A printed preamble is printed again as it is where no line loses a carriage return. -/
theorem printPreamble_of_lead (h : b'.preamble.map Line.raw = b.lead) :
    b'.printPreamble = b.printPreamble := by
  have hline : ∀ m ∈ b'.preamble, m.unindented = m.raw := by
    intro m hm
    have hmem : m.raw ∈ b.lead := h ▸ List.mem_map_of_mem hm
    rcases mem_lead hmem with hnil | hprint
    · rw [hnil, Line.unindented_of_blank (Section.kind_of_raw_eq_nil hnil)]
    · obtain ⟨l, -, hl⟩ := exists_of_mem_printPreamble hprint
      rw [Line.unindented_of_raw_eq hl, hl]
  rw [printPreamble_eq, List.map_congr_left hline, h, trimEmptyEdges_lead]

/-- Where no line loses a carriage return, the lines are printed again as they are unless a lone
equals sign doubles a gap. -/
theorem printLines_printed_iff (hb : ofText t = .ok b) (hb' : ofText t' = .ok b')
    (hpre : b'.preamble.map Line.raw = b.lead)
    (hout : b'.sections.map Section.outline = b.printedOutlines) :
    b'.printLines = b.printLines ↔ ∀ s ∈ b.sections, ¬ s.DoublesGap := by
  rw [printLines_eq_iff hb hb', and_iff_right (printPreamble_of_lead hpre)]
  exact Section.printed_iff_doublesGap (fun s hs l hl ↦ ((ofText_lines hb).2 s hs l hl).2) hout

/-! ## Lines that lose their carriage returns -/

/-- Where no fewer characters are printed the second time, none of the lines printed with line feeds
ended in a carriage return. -/
theorem getLast?_ne_return_of_length_printLines_le (hb' : ofText t' = .ok b') (hr : IsReread .lf b b')
    (h : b.printLines.flatten.length ≤ b'.printLines.flatten.length) :
    ∀ l ∈ b.printLines, l.getLast? ≠ some '\r' := by
  have hread : (b'.preamble.map Line.raw ++ spell (b'.sections.map Section.outline)) =
      (b.printLines ++ [[]]).map dropReturn := by
    rw [hr.preamble, hr.sections, ← map_reread_spell, ← List.map_append, ← printLines_append_nil]
    rfl
  have hsub := flatten_printLines_sublist hb'
  rw [hread, List.map_append, List.flatten_append, List.map_singleton, dropReturn_nil] at hsub
  exact getLast?_ne_return_of_length_le (h.trans (by simpa using hsub.length_le))

/-- Printed lines without a carriage return at their end, or with one right behind the text of
every line where line endings are kept: those are taken for CRLF endings. -/
def ReturnsSettled (preserveNewlines : Bool) (b : Brinefile) : Prop :=
  (∀ l ∈ b.printLines, l.getLast? ≠ some '\r') ∨
    preserveNewlines = true ∧ ∀ l ∈ b.printLines, ∃ x, l = x ++ ['\r'] ∧ trimSpacesEnd x = x

/-- A line of the preamble that keeps a carriage return is one with a percent sign further in. -/
theorem head?_content_of_return {l : Line} {x : Text} (h : l.unindented = x ++ ['\r']) :
    l.content.head? = some '%' := by
  by_contra hp
  rw [Line.unindented_of_ne_percent hp] at h
  have := l.isTrimmed_content.2 '\r' (by simp [h])
  exact absurd this (by decide)

theorem trimSpacesEnd_unindented (l : Line) : trimSpacesEnd l.unindented = l.unindented := by
  by_cases hp : l.content.head? = some '%'
  · rw [Line.unindented_of_percent hp, trimSpacesEnd_trimSpacesEnd]
  · rw [Line.unindented_of_ne_percent hp]
    refine dropEndWhile_eq_self_iff.mpr fun c hc ↦ ?_
    have := l.isTrimmed_content.2 c hc
    cases hs : isSpaceOrTab c with
    | false => rfl
    | true => rw [isBlank_of_isSpaceOrTab hs] at this; cases this

/-- Where every printed line ends in a carriage return there is no marker among them. -/
theorem sections_eq_nil_of_returns (h : ∀ l ∈ b.printLines, ∃ x, l = x ++ ['\r']) : b.sections = [] := by
  refine List.eq_nil_iff_forall_not_mem.mpr fun s hs ↦ ?_
  have hmarker : '%' :: s.keyword.name ∈ b.printLines ++ [[]] := by
    rw [printLines_append_nil]
    refine List.mem_append_right _ (List.mem_flatMap.mpr ⟨s.printedOutline, ?_, List.mem_cons_self⟩)
    exact List.mem_map_of_mem hs
  obtain ⟨x, hx⟩ := h _ ((List.mem_append.mp hmarker).resolve_right (by simp))
  have hlast : ('%' :: s.keyword.name).getLast? = some '\r' := by simp [hx]
  revert hlast
  cases s.keyword <;> decide

/-- Without sections the preamble is all there is. -/
theorem printLines_of_sections_nil (h : b.sections = []) :
    b.printLines = b.printPreamble ∧ b.lead = b.printPreamble ++ [[]] := by
  rw [printLines, lead, h, if_neg fun h ↦ h.2 rfl]
  exact ⟨rfl, rfl⟩

theorem IsReread.sections_eq_nil (hr : IsReread e b b') (h : b.sections = []) : b'.sections = [] := by
  have hout := hr.sections
  rw [printedOutlines, h] at hout
  simpa using hout

/-- Where all is preamble, a return stands behind content with a percent sign, which does not need
it. -/
theorem head?_trim_of_return (h : b.sections = []) {x : Text} (hx : x ++ ['\r'] ∈ b.printLines) :
    (trim x).head? = some '%' := by
  rw [(printLines_of_sections_nil h).1] at hx
  obtain ⟨l, -, hl⟩ := exists_of_mem_printPreamble hx
  have htrim : trim x = l.content := by
    rw [← Line.trim_unindented, ← hl]
    exact (trim_append_append (a := []) nofun (List.forall_mem_singleton.mpr rfl)).symm
  rw [htrim, head?_content_of_return hl.symm]

/-- A line that has lost its return right behind its text is printed as it is. -/
theorem unindented_of_return (h : b.sections = []) {x : Text} (hx : x ++ ['\r'] ∈ b.printLines)
    (htrim : trimSpacesEnd x = x) {m : Line} (hm : m.raw = x) : m.unindented = m.raw := by
  have hp : m.content.head? = some '%' := by rw [Line.content, hm, head?_trim_of_return h hx]
  rw [Line.unindented_of_percent hp, hm, htrim]

/-- Lines that end in carriage returns are printed as the lines before the returns next time. -/
theorem printLines_of_returns (hr : IsReread .lf b b')
    (h : ∀ l ∈ b.printLines, ∃ x, l = x ++ ['\r'] ∧ trimSpacesEnd x = x) :
    b'.printLines = b.printLines.map dropReturn := by
  have hsections : b.sections = [] := sections_eq_nil_of_returns fun l hl ↦ (h l hl).imp fun _ ↦ And.left
  have hraws : b'.preamble.map Line.raw = b.printLines.map dropReturn ++ [[]] := by
    obtain ⟨hlines, hlead⟩ := printLines_of_sections_nil hsections
    rw [hr.preamble, hlead, hlines, List.map_append]
    rfl
  have hline : ∀ m ∈ b'.preamble, m.unindented = m.raw := by
    intro m hm
    have hmem : m.raw ∈ b.printLines.map dropReturn ++ [[]] := hraws ▸ List.mem_map_of_mem hm
    rcases List.mem_append.mp hmem with hmem | hnil
    · obtain ⟨l, hl, hlm⟩ := List.mem_map.mp hmem
      obtain ⟨x, rfl, hx⟩ := h l hl
      rw [dropReturn_append_return] at hlm
      exact unindented_of_return hsections hl hx hlm.symm
    · have hnil := List.mem_singleton.mp hnil
      rw [hnil, Line.unindented_of_blank (Section.kind_of_raw_eq_nil hnil)]
  have hne : ∀ l ∈ b.printLines.map dropReturn, l.isEmpty = false := by
    intro l hl
    obtain ⟨m, hm, rfl⟩ := List.mem_map.mp hl
    obtain ⟨x, rfl, -⟩ := h m hm
    rw [dropReturn_append_return, List.isEmpty_eq_false_iff]
    rintro rfl
    simpa using head?_trim_of_return hsections hm
  rw [(printLines_of_sections_nil (hr.sections_eq_nil hsections)).1, printPreamble_eq,
    List.map_congr_left hline, hraws, trimEmptyEdges_append_nil, trimEmptyEdges_eq_self_iff]
  exact ⟨fun l hl ↦ hne l (List.mem_of_mem_head? hl), fun l hl ↦ hne l (List.mem_of_mem_getLast? hl)⟩

/-- Lines that are the printed ones but for a return at their ends have it right behind their text. -/
theorem returns_of_map_return_eq (hr : IsReread e b b')
    (h : b'.printLines.map (· ++ ['\r']) = b.printLines) :
    ∀ l ∈ b.printLines, ∃ x, l = x ++ ['\r'] ∧ trimSpacesEnd x = x := by
  have hreturns : ∀ l ∈ b.printLines, ∃ x ∈ b'.printLines, l = x ++ ['\r'] := by
    intro l hl
    rw [← h] at hl
    obtain ⟨x, hx, hxl⟩ := List.mem_map.mp hl
    exact ⟨x, hx, hxl.symm⟩
  have hsections : b'.sections = [] :=
    hr.sections_eq_nil (sections_eq_nil_of_returns fun l hl ↦ (hreturns l hl).imp fun _ ↦ And.right)
  intro l hl
  obtain ⟨x, hx, hlx⟩ := hreturns l hl
  rw [(printLines_of_sections_nil hsections).1] at hx
  obtain ⟨m, -, rfl⟩ := exists_of_mem_printPreamble hx
  exact ⟨_, hlx, trimSpacesEnd_unindented m⟩

theorem eq_map_return_of_returns {ls : List Text} {q : Text → Prop}
    (h : ∀ l ∈ ls, ∃ x, l = x ++ ['\r'] ∧ q x) : ls = (ls.map dropReturn).map (· ++ ['\r']) := by
  rw [List.map_map, eq_comm]
  refine (List.map_congr_left fun l hl ↦ ?_).trans (List.map_id _)
  obtain ⟨x, rfl, -⟩ := h l hl
  simp

/-! ## Formatting a formatted text -/

/-- The ending with which a text is printed. -/
def ending (preserveNewlines : Bool) (t : Text) : LineEnding :=
  if preserveNewlines then .prevailing t else .lf

theorem ending_eq_lf {p : Bool} (h : p = true → LineEnding.prevailing t = .lf) : ending p t = .lf := by
  unfold ending
  split
  · next hp => exact h hp
  · rfl

theorem format_of_ok {p : Bool} (hb : ofText t = .ok b) :
    format p t = .ok ⟨(ending p t).joinLines b.printLines, (ending p t).joinLines b.printLines != t⟩ := by
  rw [format, hb]
  rfl

/-- Where no line loses a carriage return and the ending stays, the text does but for doubled gaps. -/
theorem joinLines_printed_iff {e' : LineEnding} (hb : ofText t = .ok b) (hb' : ofText t' = .ok b')
    (hr : IsReread e b b') (hkept : ∀ l ∈ b.printLines, e.reread l = l) (he : b.printLines ≠ [] → e' = e) :
    e'.joinLines b'.printLines = e.joinLines b.printLines ↔ ∀ s ∈ b.sections, ¬ s.DoublesGap := by
  obtain ⟨hpre, hout⟩ := hr.of_kept hkept
  rw [← printLines_printed_iff hb hb' hpre hout]
  by_cases hnil : b.printLines = []
  · have hempty : e.joinLines b.printLines = [] := LineEnding.joinLines_eq_nil_iff.mpr hnil
    rw [hempty, LineEnding.joinLines_eq_nil_iff, hnil]
  · rw [he hnil]
    refine ⟨fun h ↦ ?_, fun h ↦ congrArg e.joinLines h⟩
    exact LineEnding.joinLines_injective (newline_not_mem_printLines hb')
      (newline_not_mem_printLines hb) h

/-- Carriage returns that are taken for CRLF endings are printed as such next time. -/
theorem joinLines_printed_of_returns (hb' : ofText t' = .ok b') (hr : IsReread .lf b b')
    (hne : b.printLines ≠ []) (h : ∀ l ∈ b.printLines, ∃ x, l = x ++ ['\r'] ∧ trimSpacesEnd x = x) :
    (ending true (LineEnding.lf.joinLines b.printLines)).joinLines b'.printLines =
      LineEnding.lf.joinLines b.printLines := by
  have hlines := printLines_of_returns hr h
  have htext : LineEnding.lf.joinLines b.printLines = LineEnding.crlf.joinLines b'.printLines := by
    rw [← LineEnding.joinLines_lf_map_return, hlines, ← eq_map_return_of_returns h]
  have hne' : b'.printLines ≠ [] := by
    rw [hlines, ne_eq, List.map_eq_nil_iff]
    exact hne
  rw [htext, ending, if_pos rfl,
    LineEnding.prevailing_joinLines_crlf (newline_not_mem_printLines hb') hne']

/-- Where a printed line ends in a carriage return and line feeds end the lines, the text stays as
it is exactly when the returns are taken for CRLF endings. -/
theorem joinLines_printed_return_iff {p : Bool} (hb : ofText t = .ok b) (hb' : ofText t' = .ok b')
    (hr : IsReread .lf b b') (hreturn : ¬ ∀ l ∈ b.printLines, l.getLast? ≠ some '\r') :
    (ending p (LineEnding.lf.joinLines b.printLines)).joinLines b'.printLines =
        LineEnding.lf.joinLines b.printLines ↔
      p = true ∧ ∀ l ∈ b.printLines, ∃ x, l = x ++ ['\r'] ∧ trimSpacesEnd x = x := by
  have hnewline := newline_not_mem_printLines hb
  have hnewline' := newline_not_mem_printLines hb'
  constructor
  · intro h
    cases hending : ending p (LineEnding.lf.joinLines b.printLines) with
    | lf =>
        rw [hending] at h
        have heq := LineEnding.joinLines_injective hnewline' hnewline h
        exact absurd (getLast?_ne_return_of_length_printLines_le hb' hr (heq ▸ Nat.le_refl _)) hreturn
    | crlf =>
        rw [hending, ← LineEnding.joinLines_lf_map_return] at h
        have heq : b'.printLines.map (· ++ ['\r']) = b.printLines :=
          LineEnding.joinLines_injective (by simpa using hnewline') hnewline h
        refine ⟨?_, returns_of_map_return_eq hr heq⟩
        by_contra hp
        rw [ending, if_neg hp] at hending
        cases hending
  · rintro ⟨rfl, hreturns⟩
    refine joinLines_printed_of_returns hb' hr ?_ hreturns
    intro hnil
    exact hreturn (by simp [hnil])

/-- A formatted text can always be formatted again. It then stays as it is exactly when no lone
equals sign among items doubles a gap, and CRLF prevails and is kept or the printed carriage returns
are settled. -/
theorem format_format_iff (preserveNewlines : Bool) (hb : ofText t = .ok b) :
    ∃ f g, format preserveNewlines t = .ok f ∧ format preserveNewlines f.text = .ok g ∧
      (g.text = f.text ∧ g.changed = false ↔
        (∀ s ∈ b.sections, ¬ s.DoublesGap) ∧
          (preserveNewlines = true ∧ LineEnding.prevailing t = .crlf ∨
            b.ReturnsSettled preserveNewlines)) := by
  obtain ⟨b', hb', hr⟩ := ofText_printed hb (ending preserveNewlines t)
  refine ⟨_, _, format_of_ok hb, format_of_ok hb', ?_⟩
  have hchanged : ∀ u v : Text, (u = v ∧ (u != v) = false) ↔ u = v := by
    intro u v
    simp
  rw [hchanged]
  have hnewline := newline_not_mem_printLines hb
  by_cases hcrlf : preserveNewlines = true ∧ LineEnding.prevailing t = .crlf
  · have hending : ending preserveNewlines t = .crlf := by rw [ending, if_pos hcrlf.1, hcrlf.2]
    rw [hending] at hb' hr ⊢
    rw [joinLines_printed_iff hb hb' hr fun l _ ↦ rfl]
    · exact (and_iff_left (.inl hcrlf)).symm
    · intro hne
      rw [ending, if_pos hcrlf.1, LineEnding.prevailing_joinLines_crlf hnewline hne]
  · have hending : ending preserveNewlines t = .lf := by
      refine ending_eq_lf fun hp ↦ ?_
      cases h : LineEnding.prevailing t with
      | lf => rfl
      | crlf => exact absurd ⟨hp, h⟩ hcrlf
    rw [hending] at hb' hr ⊢
    rw [or_iff_right hcrlf, ReturnsSettled]
    by_cases hreturn : ∀ l ∈ b.printLines, l.getLast? ≠ some '\r'
    · rw [joinLines_printed_iff hb hb' hr fun l hl ↦ LineEnding.reread_of_ne (hreturn l hl)]
      · exact (and_iff_left (.inl hreturn)).symm
      · exact fun _ ↦ ending_eq_lf fun _ ↦ LineEnding.prevailing_joinLines_lf hnewline hreturn
    · rw [joinLines_printed_return_iff hb hb' hr hreturn, or_iff_right hreturn, iff_and_self]
      -- Such a text has no sections.
      rintro ⟨-, hreturns⟩ s hs
      rw [sections_eq_nil_of_returns fun l hl ↦ (hreturns l hl).imp fun _ ↦ And.left] at hs
      cases hs

/-- Blank lines at the edges of a section and blanks at line ends are gone at once. -/
theorem format_format_description :
    ∃ f g, format true "%Description\n\n\n  d \n" = .ok f ∧ format true f.text = .ok g ∧
      g.text = f.text ∧ g.changed = false := by
  obtain ⟨f, g, hf, hg, hiff⟩ := format_format_iff true (t := "%Description\n\n\n  d \n") rfl
  refine ⟨f, g, hf, hg, hiff.mpr ⟨?_, .inr (.inl (by decide))⟩⟩
  rintro s hs ⟨hitems, -⟩
  rw [List.mem_singleton.mp hs] at hitems
  cases hitems

/-- A lone equals sign behind a blank line is printed as a second empty line, which the next
formatting takes away. -/
theorem format_format_lone_sign :
    format true "%packages\na\n\n=\nb\n" = .ok ⟨"%packages\na\n\n\nb\n", true⟩ ∧
      format true "%packages\na\n\n\nb\n" = .ok ⟨"%packages\na\n\nb\n", true⟩ :=
  ⟨rfl, rfl⟩

end Brinefile

end Saltern
