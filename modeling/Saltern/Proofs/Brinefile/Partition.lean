import Saltern.Proofs.Brinefile.EntryLines
import Saltern.Proofs.Document.Verdict

/-!
# Cutting loses nothing

The lines of a text, joined by line feeds, are the text without the carriage returns of its line ends.
A text is cut where each of its markers names a section, and then every line stands in one place: in
the preamble, as the marker of a section, or in a section.
-/

namespace Saltern

open Text

/-! ## Line ends -/

namespace Text

/-- A text with a line feed for each CRLF. -/
def withLf : Text → Text
  | [] => []
  | '\r' :: '\n' :: r => '\n' :: withLf r
  | c :: r => c :: withLf r

theorem joinWith_nil_cons (sep : Text) {ts : List Text} (h : ts ≠ []) :
    joinWith sep ([] :: ts) = sep ++ joinWith sep ts := by
  obtain ⟨u, us, rfl⟩ := List.exists_cons_of_ne_nil h
  rfl

/-- The lines of a text, joined by line feeds, are the text with plain line feeds. -/
theorem joinWith_lines (t : Text) : joinWith ['\n'] (lines t) = withLf t := by
  fun_induction lines t with
  | case1 => rfl
  | case2 r ih =>
      rw [joinWith_nil_cons _ (lines_ne_nil r), ih, withLf]
      rfl
  | case3 r ih =>
      rw [joinWith_nil_cons _ (lines_ne_nil r), ih, withLf]
      · rfl
      · exact fun _ h ↦ absurd h (by decide)
  | case4 c r hcrlf _ ih =>
      obtain ⟨p, ps, hps⟩ := List.exists_cons_of_ne_nil (lines_ne_nil r)
      rw [hps, joinWith_consHead, ← hps, ih, withLf]
      exact fun r' hc hr ↦ hcrlf r' hc hr

end Text

/-! ## Numbers -/

namespace Line

theorem map_number_numberedFrom (n : Nat) (ts : List Text) :
    (numberedFrom n ts).map number = List.range' (n + 1) ts.length := by
  induction ts generalizing n with
  | nil => rfl
  | cons t ts ih => rw [numberedFrom, List.map_cons, ih, List.length_cons, List.range'_succ, number]

@[simp] theorem length_numberedFrom (n : Nat) (ts : List Text) : (numberedFrom n ts).length = ts.length := by
  rw [← List.length_map (f := raw), map_raw_numberedFrom]

theorem nodup_numberedFrom (n : Nat) (ts : List Text) : (numberedFrom n ts).Nodup :=
  (pairwise_numberedFrom n ts).imp fun h heq ↦ absurd (congrArg index heq) (Nat.ne_of_lt h)

end Line

/-! ## Cuts -/

namespace Brinefile

variable {t : Text} {b : Brinefile} {e : Fault}

/-- Whether a raw line names a keyword if it starts with a percent sign. -/
def IsKnownRaw (raw : Text) : Prop := raw.head? = some '%' → ∃ k : Keyword, k.IsMarkedBy raw

theorem isKnown_iff {l : Line} : IsKnown l ↔ IsKnownRaw l.raw :=
  forall_congr' fun hm ↦ exists_congr fun _ ↦ ⟨fun h ↦ ⟨hm, h.symm⟩, fun h ↦ h.2.symm⟩

theorem forall_isKnown_numberedFrom (n : Nat) (ts : List Text) :
    (∀ l ∈ Line.numberedFrom n ts, IsKnown l) ↔ ∀ raw ∈ ts, IsKnownRaw raw := by
  conv => rhs; rw [← Line.map_raw_numberedFrom n ts, List.forall_mem_map]
  simp only [isKnown_iff]

/-- A text is cut exactly where each of its markers names a section. -/
theorem exists_ofText_iff : (∃ b, ofText t = .ok b) ↔ ∀ raw ∈ Text.lines t, IsKnownRaw raw := by
  rw [← forall_isKnown_numberedFrom 0, ← linesOf, ← exists_hasSections_iff]
  constructor
  · rintro ⟨b, hb⟩
    exact ⟨b.sections, (hasSections_iff hb).mpr rfl⟩
  · rintro ⟨ss, hss⟩
    cases hb : ofText t with
    | ok b => exact ⟨b, rfl⟩
    | error e => exact absurd hss (not_hasSections hb)

/-- Otherwise the first line that starts with a percent sign and names no section is to blame. -/
theorem ofText_eq_error_iff_lines :
    ofText t = .error e ↔ ∃ front raw rest, Text.lines t = front ++ raw :: rest ∧
      (∀ r ∈ front, IsKnownRaw r) ∧ ¬ IsKnownRaw raw ∧
      e = .unknownSection (lower (trim raw.tail)) (front.length + 1) := by
  rw [ofText_eq_error_iff]
  constructor
  · rintro ⟨l, ⟨front, rest, hsplit, hfront, hl⟩, rfl⟩
    have hindex : l.index = 0 + front.length := Line.index_of_numberedFrom hsplit
    refine ⟨front.map Line.raw, l.raw, rest.map Line.raw, ?_, ?_, fun h ↦ hl (isKnown_iff.mpr h), ?_⟩
    · rw [← Line.map_raw_numberedFrom 0 (Text.lines t), ← linesOf, hsplit, List.map_append, List.map_cons]
    · exact List.forall_mem_map.mpr fun m hm ↦ isKnown_iff.mp (hfront m hm)
    · rw [List.length_map, Line.number, hindex, Nat.zero_add, Line.marked]
  · rintro ⟨front, raw, rest, hlines, hfront, hraw, rfl⟩
    refine ⟨⟨front.length, raw⟩,
      ⟨Line.numberedFrom 0 front, Line.numberedFrom (front.length + 1) rest, ?_, ?_, ?_⟩, rfl⟩
    · rw [linesOf, hlines, Line.numberedFrom_append, Nat.zero_add, Line.numberedFrom]
    · exact (forall_isKnown_numberedFrom 0 front).mpr hfront
    · exact fun h ↦ hraw (isKnown_iff.mp h)

/-- Whether a Brinefile holds the lines of a text, all of them and each in one place. -/
structure Partitions (t : Text) (b : Brinefile) : Prop where
  joined : joinWith ['\n'] (b.lines.map Line.raw) = withLf t
  whole : ∀ l ∈ b.lines, '\n' ∉ l.raw
  numbered : b.lines.map Line.number = List.range' 1 b.lines.length
  nodup : b.lines.Nodup
  cut : ∃ pieces, IsCut b.lines b.preamble pieces ∧ pieces.map Prod.snd = b.sections

theorem lines_of_ofText (h : ofText t = .ok b) : b.lines = linesOf t := by
  rw [ofText] at h
  split at h
  · cases h
  · cases h
    rfl

theorem partitions_of_ofText (h : ofText t = .ok b) : Partitions t b := by
  have hlines : b.lines = linesOf t := lines_of_ofText h
  exact {
    joined := by rw [hlines, linesOf, Line.map_raw_numberedFrom, joinWith_lines]
    whole := fun l hl ↦ by
      have hmem : l.raw ∈ (linesOf t).map Line.raw := List.mem_map_of_mem (hlines ▸ hl)
      rw [linesOf, Line.map_raw_numberedFrom] at hmem
      exact newline_not_mem_of_mem_lines hmem
    numbered := by rw [hlines, linesOf, Line.map_number_numberedFrom, Line.length_numberedFrom]
    nodup := hlines ▸ Line.nodup_numberedFrom 0 _
    cut := hlines ▸ gather_eq_ok_iff.mp (gather_of_ofText h) }

/-- A text is cut where each line that starts with a percent sign names a section, and else the first one
that names none is blamed; what is cut holds every line of the text in one place. -/
theorem ofText_partition (t : Text) :
    ((∃ b, ofText t = .ok b) ↔ ∀ raw ∈ Text.lines t, IsKnownRaw raw) ∧
      (∀ e, ofText t = .error e ↔ ∃ front raw rest, Text.lines t = front ++ raw :: rest ∧
        (∀ r ∈ front, IsKnownRaw r) ∧ ¬ IsKnownRaw raw ∧
        e = .unknownSection (lower (trim raw.tail)) (front.length + 1)) ∧
      ∀ b, ofText t = .ok b → Partitions t b :=
  ⟨exists_ofText_iff, fun _ ↦ ofText_eq_error_iff_lines, fun _ ↦ partitions_of_ofText⟩

/-- Between the lines stand line feeds only; a carriage return of its own stays in its line. -/
theorem ofText_partition_stray_return :
    let text : Text := "a\r\n\n%Packages\n \r\r\n- b"
    ∃ b, ofText text = .ok b ∧ Partitions text b ∧ b.preamble.map Line.raw = ["a", ""] ∧
      b.sections.flatMap Section.raws = [" \r", "- b"] := by
  intro text
  have hread : ofText text = .ok _ := rfl
  exact ⟨_, hread, (ofText_partition text).2.2 _ hread, rfl, rfl⟩

end Brinefile

end Saltern
