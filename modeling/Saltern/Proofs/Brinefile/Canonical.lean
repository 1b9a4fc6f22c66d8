import Saltern.Proofs.Brinefile.Reformat

/-!
# Texts in canonical layout

A text is laid out when its lines stand as they are printed and one empty line stands before each marker. Such a
text is cut into its sections where they were put together, and formatting finds nothing to change in it.
-/

namespace Saltern

open Text

/-! ## Lines -/

/-- A line that says something and is no marker, without blanks at its edges. -/
structure IsTidyLine (t : Text) : Prop where
  ne_nil : t ≠ []
  trimmed : IsTrimmed t
  percent : t.head? ≠ some '%'
  newline : '\n' ∉ t

/-- A comment, or an entry in its canonical spelling. -/
structure IsCanonicalLine (k : Keyword) (t : Text) : Prop extends IsTidyLine t where
  spelling : t.head? = some '#' ∨ k.respell t = t

section Lines

variable {k : Keyword} {l : Line} {t : Text}

theorem IsTidyLine.ofRaw (h : IsTidyLine t) :
    LineKind.ofRaw t = if t.head? = some '#' then .comment else .entry := by
  have htrim := trim_eq_self_iff.mpr h.trimmed
  by_cases hhash : t.head? = some '#'
  · simp [LineKind.ofRaw, htrim, h.ne_nil, hhash]
  · rw [if_neg hhash, LineKind.ofRaw_eq_entry_iff, htrim]
    exact ⟨h.ne_nil, h.percent, hhash⟩

/-- A comment is a canonical line of every section. -/
theorem isCanonicalLine_of_comment (htrim : trim t = t) (hhash : t.head? = some '#') (hnewline : '\n' ∉ t) :
    IsCanonicalLine k t where
  ne_nil := by
    rintro rfl
    cases hhash
  trimmed := trim_eq_self_iff.mp htrim
  percent := by
    rw [hhash]
    decide
  newline := hnewline
  spelling := .inl hhash

theorem IsTidyLine.ofRaw_ne (h : IsTidyLine t) : LineKind.ofRaw t ≠ .blank ∧ LineKind.ofRaw t ≠ .marker := by
  rw [h.ofRaw]
  split <;> decide

theorem IsTidyLine.ne_return (h : IsTidyLine t) : t.getLast? ≠ some '\r' :=
  fun hr ↦ absurd (h.trimmed.2 _ hr) (by decide)

theorem IsTidyLine.content (h : IsTidyLine l.raw) : l.content = l.raw := trim_eq_self_iff.mpr h.trimmed

theorem IsTidyLine.unindented (h : IsTidyLine l.raw) : l.unindented = l.raw := by
  rw [Line.unindented_of_ne_percent (h.content ▸ h.percent), h.content]

theorem IsCanonicalLine.printLine (h : IsCanonicalLine k l.raw) : Section.printLine k l = l.raw := by
  have htidy := h.toIsTidyLine
  rcases Section.printLine_eq (k := k) htidy.ofRaw_ne.2 with ⟨hprint, hkind, -⟩ | ⟨hprint, -⟩
  · rw [Line.kind, htidy.ofRaw] at hkind
    rw [hprint, htidy.content]
    refine h.spelling.resolve_left fun hhash ↦ ?_
    rw [if_pos hhash] at hkind
    cases hkind
  · rw [hprint, htidy.unindented]

theorem IsCanonicalLine.settled (h : IsCanonicalLine k l.raw) : Section.Settled k l :=
  .inr ⟨h.ofRaw_ne.1, h.printLine⟩

end Lines

/-! ## Bodies of sections -/

theorem bareEdges_of_ne_nil {ts : List Text} (h : ∀ t ∈ ts, t ≠ []) : BareEdges List.isEmpty ts :=
  ⟨fun t ht ↦ by simpa using h t (List.mem_of_mem_head? ht),
    fun t ht ↦ by simpa using h t (List.mem_of_mem_getLast? ht)⟩

/-- A body that is printed as it stands: canonical lines with one empty line at most between two of them. -/
structure IsCanonicalBody (k : Keyword) (ts : List Text) : Prop where
  keyword : k ≠ .readme
  edges : BareEdges List.isEmpty ts
  gaps : NoDoubleEmpty ts
  line : ∀ t ∈ ts, t ≠ [] → IsCanonicalLine k t

namespace IsCanonicalBody

variable {k : Keyword} {s : Section} {ts : List Text} {t : Text}

/-- Canonical lines without gaps make a canonical body. -/
theorem of_lines (hk : k ≠ .readme) (h : ∀ t ∈ ts, IsCanonicalLine k t) : IsCanonicalBody k ts := by
  have hne : ∀ t ∈ ts, t ≠ [] := fun t ht ↦ (h t ht).ne_nil
  refine ⟨hk, bareEdges_of_ne_nil hne, ?_, fun t ht _ ↦ h t ht⟩
  rw [NoDoubleEmpty, List.isChain_iff_forall_rel_of_append_cons_cons]
  rintro a b us vs rfl ⟨hnil, -⟩
  exact hne a (by simp) hnil

theorem ofRaw_ne_marker (h : IsCanonicalBody k ts) (ht : t ∈ ts) : LineKind.ofRaw t ≠ .marker := by
  by_cases hnil : t = []
  · rw [hnil]
    decide
  · exact (h.line t ht hnil).ofRaw_ne.2

/-- Such a body is printed as it stands, whatever the empty line behind it. -/
theorem printBody (h : IsCanonicalBody s.keyword ts) (hraws : s.raws = ts ++ [[]]) : s.printBody = ts := by
  rw [Section.printBody_of_ne_readme h.keyword]
  refine Section.trimEmptyEdges_squeeze_printed h.edges h.gaps hraws fun l hl ↦ ?_
  by_cases hnil : l.raw = []
  · exact .inl hnil
  · have hmem : l.raw ∈ ts ++ [[]] := hraws ▸ List.mem_map_of_mem hl
    exact (h.line l.raw (by simpa [hnil] using hmem) hnil).settled

end IsCanonicalBody

/-! ## Texts -/

/-- A Brinefile to be written: the lines before its first marker, and the lines of its sections. -/
structure Layout where
  lead : List Text
  bodies : List (Keyword × List Text)

namespace Layout

open Brinefile

variable {y : Layout} {t : Text}

/-- The lines of a layout, with an empty one before each marker. -/
def rows (y : Layout) : List Text := y.lead ++ y.bodies.flatMap fun o ↦ [] :: ('%' :: o.1.name) :: o.2

def text (y : Layout) : Text := LineEnding.lf.joinLines y.rows

/-- The text of one section, with the empty line before its marker. -/
def sectionText (o : Keyword × List Text) : Text :=
  '\n' :: '%' :: (o.1.name ++ '\n' :: o.2.flatMap (· ++ ['\n']))

/-- The sections as they are found again, each with the empty line behind it. -/
def outlines (y : Layout) : List (Keyword × List Text) := y.bodies.map fun o ↦ (o.1, o.2 ++ [[]])

/-- A layout with something before its first marker, all lines of which stand as they are printed. -/
structure IsCanonical (y : Layout) : Prop where
  lead_ne_nil : y.lead ≠ []
  edges : BareEdges List.isEmpty y.lead
  lead : ∀ t ∈ y.lead, t ≠ [] → IsTidyLine t
  body : ∀ o ∈ y.bodies, IsCanonicalBody o.1 o.2

theorem text_eq (y : Layout) : y.text = y.lead.flatMap (· ++ ['\n']) ++ y.bodies.flatMap sectionText := by
  have hsection : ∀ o : Keyword × List Text,
      ([] :: ('%' :: o.1.name) :: o.2).flatMap (· ++ ['\n']) = sectionText o := by
    intro o
    simp [sectionText]
  rw [text, LineEnding.joinLines_eq_flatMap, rows, List.flatMap_append, List.flatMap_assoc]
  exact congrArg (_ ++ List.flatMap · y.bodies) (funext hsection)

theorem rows_append_nil (y : Layout) : y.rows ++ [[]] = (y.lead ++ [[]]) ++ spell y.outlines := by
  have hbodies : ∀ os : List (Keyword × List Text),
      (os.flatMap fun o ↦ [] :: ('%' :: o.1.name) :: o.2) ++ [[]] =
        [] :: spell (os.map fun o ↦ (o.1, o.2 ++ [[]])) := by
    intro os
    induction os with
    | nil => rfl
    | cons o os ih =>
        rw [List.flatMap_cons, List.append_assoc, ih, List.map_cons, spell, spell, List.flatMap_cons]
        simp
  rw [rows, List.append_assoc, hbodies, outlines, List.append_assoc]
  rfl

namespace IsCanonical

theorem ofRaw_ne_marker_of_mem_lead (h : y.IsCanonical) (ht : t ∈ y.lead ++ [[]]) :
    LineKind.ofRaw t ≠ .marker := by
  by_cases hnil : t = []
  · rw [hnil]
    decide
  · exact (h.lead t (by simpa [hnil] using ht) hnil).ofRaw_ne.2

theorem ofRaw_ne_marker_of_mem_outlines (h : y.IsCanonical) {o : Keyword × List Text} (ho : o ∈ y.outlines)
    (ht : t ∈ o.2) : LineKind.ofRaw t ≠ .marker := by
  obtain ⟨o, hbody, rfl⟩ := List.mem_map.mp ho
  rcases List.mem_append.mp ht with ht | ht
  · exact (h.body o hbody).ofRaw_ne_marker ht
  · rw [List.mem_singleton.mp ht]
    decide

/-- No line of a canonical layout is cut further, and none loses anything at its end. -/
theorem of_mem_rows (h : y.IsCanonical) (ht : t ∈ y.rows) : '\n' ∉ t ∧ t.getLast? ≠ some '\r' := by
  by_cases hnil : t = []
  · rw [hnil]
    exact ⟨List.not_mem_nil, nofun⟩
  · rcases List.mem_append.mp ht with ht | ht
    · have htidy := h.lead t ht hnil
      exact ⟨htidy.newline, htidy.ne_return⟩
    · obtain ⟨o, ho, ht⟩ := List.mem_flatMap.mp ht
      have hmarker : ∀ k : Keyword, '\n' ∉ '%' :: k.name ∧ ('%' :: k.name).getLast? ≠ some '\r' := by
        intro k
        cases k <;> decide
      rcases List.mem_cons.mp ((List.mem_cons.mp ht).resolve_left hnil) with rfl | ht
      · exact hmarker o.1
      · have htidy := (h.body o ho).line t ht hnil
        exact ⟨htidy.newline, htidy.ne_return⟩

theorem lines_text (h : y.IsCanonical) : Text.lines y.text = (y.lead ++ [[]]) ++ spell y.outlines := by
  have hkept : y.rows.map LineEnding.lf.reread = y.rows :=
    (List.map_congr_left fun t ht ↦ LineEnding.reread_of_ne (h.of_mem_rows ht).2).trans (List.map_id _)
  rw [text, LineEnding.lines_joinLines fun t ht ↦ (h.of_mem_rows ht).1, hkept, rows_append_nil]

/-- A text in canonical layout is cut where it was put together, and printed as it stands. -/
theorem ofText_text (h : y.IsCanonical) :
    ∃ b, ofText y.text = .ok b ∧ b.sections.map Section.outline = y.outlines ∧ b.printLines = y.rows := by
  obtain ⟨preamble, ss, hgather, hpre, hout⟩ := gather_spell (fun t ht ↦ h.ofRaw_ne_marker_of_mem_lead ht)
    (fun o ho t ht ↦ h.ofRaw_ne_marker_of_mem_outlines ho ht) 0
  have hb : ofText y.text = .ok ⟨preamble, ss, linesOf y.text⟩ := by rw [ofText, linesOf, h.lines_text, hgather]
  refine ⟨_, hb, hout, ?_⟩
  have hpreamble : printPreamble ⟨preamble, ss, linesOf y.text⟩ = y.lead := by
    have hline : ∀ l ∈ preamble, l.unindented = l.raw := by
      intro l hl
      by_cases hnil : l.raw = []
      · rw [hnil, Line.unindented_of_blank (Section.kind_of_raw_eq_nil hnil)]
      · have hmem : l.raw ∈ y.lead ++ [[]] := hpre ▸ List.mem_map_of_mem hl
        exact (h.lead l.raw (by simpa [hnil] using hmem) hnil).unindented
    rw [printPreamble_eq, List.map_congr_left hline, hpre, trimEmptyEdges_append_nil]
    exact trimEmptyEdges_eq_self_iff.mpr h.edges
  have houtlines : printedOutlines ⟨preamble, ss, linesOf y.text⟩ = y.outlines := by
    rw [← hout]
    refine List.map_congr_left fun s hs ↦ ?_
    have hmem : s.outline ∈ y.outlines := hout ▸ List.mem_map_of_mem hs
    obtain ⟨o, ho, heq⟩ := List.mem_map.mp hmem
    obtain ⟨hkey, hraws⟩ := Prod.mk.inj heq
    rw [Section.printedOutline, Section.outline, ← hraws]
    exact congrArg (s.keyword, · ++ [[]]) (IsCanonicalBody.printBody (hkey ▸ h.body o ho) hraws.symm)
  have hrows : printLines ⟨preamble, ss, linesOf y.text⟩ ++ [[]] = y.rows ++ [[]] := by
    rw [printLines_append_nil, Brinefile.lead, hpreamble, if_neg fun hnil ↦ h.lead_ne_nil hnil.1, houtlines,
      rows_append_nil]
  exact List.append_cancel_right hrows

/-- Formatting finds nothing to change in a text in canonical layout. -/
theorem format_text (h : y.IsCanonical) (preserveNewlines : Bool) :
    format preserveNewlines y.text = .ok ⟨y.text, false⟩ := by
  obtain ⟨b, hb, -, hprint⟩ := h.ofText_text
  have hending : ending preserveNewlines y.text = .lf := ending_eq_lf fun _ ↦
    LineEnding.prevailing_joinLines_lf (fun t ht ↦ (h.of_mem_rows ht).1) fun t ht ↦ (h.of_mem_rows ht).2
  rw [format_of_ok hb, hending, hprint, ← text, bne_self_eq_false]

end IsCanonical

end Layout

end Saltern
