import Saltern.Proofs.Brinefile.Faults
import Saltern.Proofs.Text.OneLine

/-!
# The verdict on a text

Which texts describe a document, and what any other text is blamed for. A text that is cut into
sections is blamed for the first section that cannot stand where it does, and only then for what
its sections lack together.
-/

namespace Saltern

open Text

namespace Brinefile

/-- The sections of a text whose markers all name one. -/
def HasSections (t : Text) (ss : List Section) : Prop :=
  ∃ preamble pieces, IsCut (linesOf t) preamble pieces ∧ pieces.map Prod.snd = ss

variable {t : Text} {ss : List Section} {b : Brinefile} {e : Fault}

theorem ofText_eq_error_iff :
    ofText t = .error e ↔ ∃ l, IsFirst IsKnown (linesOf t) l ∧ e = .unknownSection l.marked l.number := by
  rw [← gather_eq_error_iff, ofText]
  cases gather (linesOf t) <;> simp

theorem hasSections_iff (h : ofText t = .ok b) : HasSections t ss ↔ b.sections = ss := by
  rw [ofText] at h
  have hiff : HasSections t ss ↔ ∃ preamble, gather (linesOf t) = .ok (preamble, ss) := by
    simp only [HasSections, gather_eq_ok_iff]
  rw [hiff]
  cases hg : gather (linesOf t) with
  | error e => simp [hg] at h
  | ok r =>
      obtain ⟨preamble, sections⟩ := r
      simp only [hg, Except.ok.injEq] at h
      obtain rfl := h
      simp

theorem not_hasSections (h : ofText t = .error e) : ¬ HasSections t ss := by
  rintro ⟨preamble, pieces, hcut, hss⟩
  have hg : gather (linesOf t) = .ok (preamble, ss) := gather_eq_ok_iff.mpr ⟨pieces, hcut, hss⟩
  simp [ofText, hg] at h

/-- A text is cut where every marker names a section. -/
theorem exists_hasSections_iff : (∃ ss, HasSections t ss) ↔ ∀ l ∈ linesOf t, IsKnown l := by
  constructor
  · rintro ⟨_, preamble, pieces, hcut, -⟩ l hl hm
    rw [hcut.lines, List.mem_append, List.mem_flatMap] at hl
    rcases hl with hl | ⟨p, hp, hl⟩
    · exact absurd hm (hcut.preamble l hl)
    · rcases List.mem_cons.mp hl with rfl | hl
      · exact ⟨p.2.keyword, (hcut.marker p hp).2.1⟩
      · exact absurd hm (hcut.body p hp l hl)
  · intro h
    cases hb : ofText t with
    | ok b => exact ⟨b.sections, (hasSections_iff hb).mpr rfl⟩
    | error e =>
        obtain ⟨l, hfirst, -⟩ := ofText_eq_error_iff.mp hb
        obtain ⟨m, hm, hno⟩ := hfirst.exists_not
        exact absurd (h m hm) hno

end Brinefile

/-! ## Sections in their places -/

/-- Each section of a list, with those before it. -/
def Section.places (before : List Section) : List Section → List (List Section × Section)
  | [] => []
  | s :: ss => (before, s) :: places (before ++ [s]) ss

namespace Document

variable {ss before : List Section} {s : Section} {cs : List Contents} {d : Document} {t : Text} {e : Fault}

/-- Whether a section declares an identity that one before it has declared. -/
def Redeclares (before : List Section) (s : Section) : Prop :=
  s.keyword.isIdentity = true ∧ ∃ r ∈ before, r.keyword.isIdentity = true

/-- What a section is blamed for in its place: a second identity section for being there, and any
other for what it holds. -/
inductive Blame (before : List Section) (s : Section) : Fault → Prop
  | conflictingIdentity (h : Redeclares before s) : Blame before s (.conflictingIdentity s.keyword s.line)
  | contents {e : Fault} (h : ¬ Redeclares before s) (he : s.Blame e) : Blame before s e

/-- A section that can stand in its place. -/
def Stands (p : List Section × Section) : Prop := ¬ Redeclares p.1 p.2 ∧ p.2.IsFit

/-- What sections are blamed for: the first that cannot stand in its place, a missing identity, or
descriptions without a word. -/
inductive SectionsFault (ss : List Section) : Fault → Prop
  | section {p : List Section × Section} {e : Fault} (h : IsFirst Stands (Section.places [] ss) p)
      (he : Blame p.1 p.2 e) : SectionsFault ss e
  | missingIdentity (h : ∀ p ∈ Section.places [] ss, Stands p)
      (hid : ∀ s ∈ ss, s.keyword.isIdentity = false) : SectionsFault ss .missingIdentity
  | missingDescription (h : ∀ p ∈ Section.places [] ss, Stands p)
      (hid : ∃ s ∈ ss, s.keyword.isIdentity = true)
      (hd : ∀ s ∈ ss, s.keyword = .description → s.entries = []) :
      SectionsFault ss (.missingDescription (descriptionLine ss))

/-- Sections that describe a document: one of them declares its identity, each holds what its
keyword asks for, and a description has an entry. -/
structure Describes (ss : List Section) : Prop where
  identity : ∃ s, ss.filter (·.keyword.isIdentity) = [s]
  fit : ∀ s ∈ ss, s.IsFit
  description : ∃ s ∈ ss, s.keyword = .description ∧ s.entries ≠ []

/-- A text of the grammar: its markers all name sections, and its sections describe a document. -/
structure IsGrammatical (t : Text) : Prop where
  markers : ∀ l ∈ Brinefile.linesOf t, Brinefile.IsKnown l
  sections : ∃ ss, Brinefile.HasSections t ss ∧ Describes ss

/-- What a text is blamed for: its first marker that names no section, or else its sections. -/
inductive FirstFault (t : Text) : Fault → Prop
  | unknownSection {l : Line} (h : IsFirst Brinefile.IsKnown (Brinefile.linesOf t) l) :
      FirstFault t (.unknownSection l.marked l.number)
  | sections {ss : List Section} {e : Fault} (hss : Brinefile.HasSections t ss) (he : SectionsFault ss e) :
      FirstFault t e

theorem redeclares_iff (before : List Section) (s : Section) :
    Redeclares before s ↔ (s.keyword.isIdentity && before.any (·.keyword.isIdentity)) = true := by
  simp [Redeclares]

theorem blame_of_redeclares (h : Redeclares before s) :
    Blame before s e ↔ e = .conflictingIdentity s.keyword s.line := by
  constructor
  · rintro (- | ⟨hno, -⟩)
    · rfl
    · exact absurd h hno
  · rintro rfl
    exact .conflictingIdentity h

theorem blame_of_not_redeclares (h : ¬ Redeclares before s) : Blame before s e ↔ s.contents = .error e := by
  rw [(Section.contents_spec s).2]
  constructor
  · rintro (hre | ⟨-, he⟩)
    · exact absurd hre h
    · exact he
  · exact .contents h

/-- Sections are read when each can stand in its place, and the first that cannot is to blame. -/
theorem readSections_spec (before ss : List Section) :
    ((∃ cs, readSections (before.any (·.keyword.isIdentity)) ss = .ok cs) ↔
      ∀ p ∈ Section.places before ss, Stands p) ∧
    ∀ e, readSections (before.any (·.keyword.isIdentity)) ss = .error e ↔
      ∃ p, IsFirst Stands (Section.places before ss) p ∧ Blame p.1 p.2 e := by
  induction ss generalizing before with
  | nil => simp [readSections, Section.places]
  | cons s ss ih =>
      obtain ⟨ihok, iherror⟩ := ih (before ++ [s])
      have hnamed : (before ++ [s]).any (·.keyword.isIdentity) =
          (before.any (·.keyword.isIdentity) || s.keyword.isIdentity) := by simp
      rw [hnamed] at ihok iherror
      rw [readSections, Section.places, List.forall_mem_cons]
      by_cases hre : Redeclares before s
      · have hno : ¬ Stands (before, s) := fun h ↦ h.1 hre
        rw [if_pos ((redeclares_iff before s).mp hre)]
        simp only [isFirst_cons_of_not hno, exists_eq_left, blame_of_redeclares hre, hno, false_and,
          reduceCtorEq, exists_false, Except.error.injEq, true_and]
        exact fun e ↦ eq_comm
      · rw [if_neg fun h ↦ hre ((redeclares_iff before s).mpr h)]
        cases hc : s.contents with
        | error e' =>
            have hno : ¬ Stands (before, s) := fun h ↦
              not_reads_of_error hc ((Section.contents_spec s).1.mpr h.2)
            refine ⟨by simp [hno], fun e ↦ ?_⟩
            simp only [isFirst_cons_of_not hno, exists_eq_left, blame_of_not_redeclares hre, hc,
              Except.error.injEq]
        | ok c =>
            have hstands : Stands (before, s) := ⟨hre, (Section.contents_spec s).1.mp ⟨c, hc⟩⟩
            simp only [isFirst_cons_of hstands, hstands, true_and, ← ihok, ← iherror]
            cases readSections (before.any (·.keyword.isIdentity) || s.keyword.isIdentity) ss <;> simp

/-- All sections stand where each is fit and no two of them declare an identity. -/
theorem forall_stands_iff (before ss : List Section) :
    (∀ p ∈ Section.places before ss, Stands p) ↔
      (∀ s ∈ ss, s.IsFit) ∧ (ss.filter (·.keyword.isIdentity)).length +
        (if before.any (·.keyword.isIdentity) then 1 else 0) ≤ 1 := by
  induction ss generalizing before with
  | nil =>
      simp only [Section.places, List.not_mem_nil, false_implies, implies_true, List.filter_nil,
        List.length_nil, Nat.zero_add, true_and, true_iff]
      split <;> decide
  | cons s ss ih =>
      rw [Section.places, List.forall_mem_cons, List.forall_mem_cons, ih, Stands, redeclares_iff]
      cases hs : s.keyword.isIdentity <;> cases hb : before.any (·.keyword.isIdentity) <;>
        simp [hs, hb, and_assoc]

/-! ## What sections lack together -/

theorem identity?_cons_eq_none_iff {c : Contents} :
    identity? (c :: cs) = none ↔ identity? [c] = none ∧ identity? cs = none := by
  simp [identity?]

/-- Only identity sections declare an identity. -/
theorem identity?_of_contents {c : Contents} (h : s.contents = .ok c) :
    identity? [c] = none ↔ s.keyword.isIdentity = false := by
  obtain ⟨k, line, lines⟩ := s
  cases k <;> first
    | (cases h; exact ⟨fun _ ↦ rfl, fun _ ↦ rfl⟩)
    | (obtain ⟨x, -, rfl⟩ := map_eq_ok_iff.mp h; exact ⟨fun _ ↦ rfl, fun _ ↦ rfl⟩)
    | (obtain ⟨x, -, rfl⟩ := map_eq_ok_iff.mp h; exact ⟨nofun, nofun⟩)

theorem identity?_eq_none_iff (h : ss.mapM Section.contents = .ok cs) :
    identity? cs = none ↔ ∀ s ∈ ss, s.keyword.isIdentity = false := by
  rw [mapM_eq_ok_iff] at h
  induction h with
  | nil => simp [identity?]
  | cons hc _ ih => rw [identity?_cons_eq_none_iff, List.forall_mem_cons, identity?_of_contents hc, ih]

/-- Only description sections give a description: the entries of each. -/
theorem contents_eq_description_iff {c : Contents} {u : Text} (h : s.contents = .ok c) :
    c = .description u ↔ s.keyword = .description ∧ s.prose = u := by
  obtain ⟨k, line, lines⟩ := s
  cases k <;> first
    | (cases h; simp [Section.prose])
    | (obtain ⟨x, -, rfl⟩ := map_eq_ok_iff.mp h; simp)

/-- Texts joined line by line are blank together where each of them is. -/
theorem trim_joinWith_eq_nil_iff {ts : List Text} :
    trim (joinWith ['\n'] ts) = [] ↔ ∀ u ∈ ts, trim u = [] := by
  simp only [trim_eq_nil_iff]
  induction ts with
  | nil => simp
  | cons u ts ih =>
      cases ts with
      | nil => simp
      | cons v ts =>
          have hfeed : ∀ c ∈ ['\n'], isBlank c = true := List.forall_mem_singleton.mpr rfl
          rw [joinWith_cons_cons, List.forall_mem_append, List.forall_mem_append, ih, List.forall_mem_cons]
          simp [hfeed]

/-- A section has prose where it has entries. -/
theorem trim_sectionProse_eq_nil_iff (s : Section) : trim s.prose = [] ↔ s.entries = [] := by
  rw [Section.prose, trim_joinWith_eq_nil_iff, Section.values, List.forall_mem_map,
    List.eq_nil_iff_forall_not_mem]
  refine forall₂_congr fun l hl ↦ ?_
  have hkind : l.kind = .entry := by simpa using (List.mem_filter.mp hl).2
  have hcontent : l.content ≠ [] := (LineKind.ofRaw_eq_entry_iff.mp hkind).1
  simpa using hcontent

theorem trim_prose_eq_nil_iff (h : ss.mapM Section.contents = .ok cs) :
    trim (prose cs) = [] ↔ ∀ s ∈ ss, s.keyword = .description → s.entries = [] := by
  rw [prose, trim_joinWith_eq_nil_iff]
  constructor
  · intro hall s hs hk
    obtain ⟨c, hc, hsc⟩ := exists_of_mapM_eq_ok h hs
    rw [← trim_sectionProse_eq_nil_iff]
    by_cases hne : s.prose = []
    · rw [hne, trim_nil]
    · refine hall s.prose (List.mem_filterMap.mpr ⟨c, hc, ?_⟩)
      rw [(contents_eq_description_iff hsc).mpr ⟨hk, rfl⟩]
      exact if_neg (by simpa using hne)
  · intro hall u hu
    obtain ⟨c, hc, hcu⟩ := List.mem_filterMap.mp hu
    obtain ⟨s, hs, hsc⟩ := exists_of_mem_mapM h hc
    have hdesc : c = .description u := by
      split at hcu
      · split at hcu
        · cases hcu
        · rw [Option.some.inj hcu]
      · cases hcu
    obtain ⟨hk, rfl⟩ := (contents_eq_description_iff hsc).mp hdesc
    exact (trim_sectionProse_eq_nil_iff s).mpr (hall s hs hk)

theorem describes_iff :
    Describes ss ↔ (∀ p ∈ Section.places [] ss, Stands p) ∧ (∃ s ∈ ss, s.keyword.isIdentity = true) ∧
      ∃ s ∈ ss, s.keyword = .description ∧ s.entries ≠ [] := by
  rw [forall_stands_iff]
  constructor
  · rintro ⟨⟨s, hs⟩, hfit, hdesc⟩
    have hmem : s ∈ ss.filter (·.keyword.isIdentity) := hs ▸ List.mem_singleton_self s
    exact ⟨⟨hfit, by simp [hs]⟩, ⟨s, List.mem_filter.mp hmem⟩, hdesc⟩
  · rintro ⟨⟨hfit, hone⟩, ⟨s, hs, hid⟩, hdesc⟩
    have hpos : 0 < (ss.filter (·.keyword.isIdentity)).length :=
      List.length_pos_of_mem (List.mem_filter.mpr ⟨hs, hid⟩)
    refine ⟨List.length_eq_one_iff.mp ?_, hfit, hdesc⟩
    simp only [List.any_nil, Bool.false_eq_true, if_false] at hone
    omega

/-- What is read is blamed for a missing identity first, then for a missing description. -/
theorem ofSections_eq_error_iff :
    ofSections ss = .error e ↔
      readSections false ss = .error e ∨
        ∃ cs, readSections false ss = .ok cs ∧
          (identity? cs = none ∧ e = .missingIdentity ∨
            identity? cs ≠ none ∧ trim (prose cs) = [] ∧ e = .missingDescription (descriptionLine ss)) := by
  unfold ofSections
  cases readSections false ss with
  | error e' => simp
  | ok cs =>
      simp only [reduceCtorEq, Except.ok.injEq, exists_eq_left', false_or]
      cases hid : identity? cs with
      | none =>
          simp only [Except.error.injEq, true_and, ne_eq, not_true, false_and, or_false]
          exact eq_comm
      | some p =>
          have hempty : (trim (joinWith ['\n'] (descriptions cs))).isEmpty = true ↔ trim (prose cs) = [] :=
            List.isEmpty_iff
          simp only [hempty, reduceCtorEq, false_and, false_or, ne_eq, not_false_eq_true, true_and]
          split
          · next h =>
            simp only [h, true_and, Except.error.injEq]
            exact eq_comm
          · next h => simp only [h, reduceCtorEq, false_and]

/-- Sections describe a document exactly when they are of the grammar. -/
theorem exists_ofSections_iff : (∃ d, ofSections ss = .ok d) ↔ Describes ss := by
  rw [describes_iff, ← (readSections_spec [] ss).1]
  constructor
  · rintro ⟨d, hd⟩
    obtain ⟨cs, hread, kind, name, hid, hprose, -⟩ := ofSections_eq_ok_iff.mp hd
    have hcs := (readSections_eq_ok_iff.mp hread).2
    have hsome : identity? cs ≠ none := by simp [hid]
    rw [Ne, identity?_eq_none_iff hcs] at hsome
    rw [Ne, trim_prose_eq_nil_iff hcs] at hprose
    exact ⟨⟨cs, hread⟩, by simpa using hsome, by simpa using hprose⟩
  · rintro ⟨⟨cs, hread⟩, hid, hdesc⟩
    have hcs := (readSections_eq_ok_iff.mp hread).2
    have hsome : identity? cs ≠ none := by
      rw [Ne, identity?_eq_none_iff hcs]
      simpa using hid
    have hprose : trim (prose cs) ≠ [] := by
      rw [Ne, trim_prose_eq_nil_iff hcs]
      simpa using hdesc
    obtain ⟨⟨kind, name⟩, hid⟩ := Option.ne_none_iff_exists'.mp hsome
    exact ⟨_, ofSections_eq_ok_iff.mpr ⟨cs, hread, kind, name, hid, hprose, rfl⟩⟩

/-- Other sections are blamed for the first that cannot stand, or for what they lack together. -/
theorem ofSections_eq_error_iff_fault : ofSections ss = .error e ↔ SectionsFault ss e := by
  obtain ⟨hok, herror⟩ := readSections_spec [] ss
  rw [List.any_nil] at hok herror
  rw [ofSections_eq_error_iff, herror]
  constructor
  · rintro (⟨p, hp, he⟩ | ⟨cs, hread, hlack⟩)
    · exact .section hp he
    · have hcs := (readSections_eq_ok_iff.mp hread).2
      have hstands := hok.mp ⟨cs, hread⟩
      rw [Ne, identity?_eq_none_iff hcs, trim_prose_eq_nil_iff hcs] at hlack
      rcases hlack with ⟨hid, rfl⟩ | ⟨hid, hdesc, rfl⟩
      · exact .missingIdentity hstands hid
      · exact .missingDescription hstands (by simpa using hid) hdesc
  · rintro (⟨hp, he⟩ | ⟨hstands, hid⟩ | ⟨hstands, hid, hdesc⟩)
    · exact .inl ⟨_, hp, he⟩
    · obtain ⟨cs, hread⟩ := hok.mpr hstands
      have hcs := (readSections_eq_ok_iff.mp hread).2
      exact .inr ⟨cs, hread, .inl ⟨(identity?_eq_none_iff hcs).mpr hid, rfl⟩⟩
    · obtain ⟨cs, hread⟩ := hok.mpr hstands
      have hcs := (readSections_eq_ok_iff.mp hread).2
      refine .inr ⟨cs, hread, .inr ⟨?_, (trim_prose_eq_nil_iff hcs).mpr hdesc, rfl⟩⟩
      rw [Ne, identity?_eq_none_iff hcs]
      simpa using hid

/-- A text describes a document exactly when it is one of the grammar, and any other text is
blamed for its first fault. -/
theorem ofText_verdict (t : Text) :
    ((∃ d, ofText t = .ok d) ↔ IsGrammatical t) ∧ ∀ e, ofText t = .error e ↔ FirstFault t e := by
  cases hb : Brinefile.ofText t with
  | error e' =>
      have hno : ∀ ss, ¬ Brinefile.HasSections t ss := fun ss ↦ Brinefile.not_hasSections hb
      have hd : ofText t = .error e' := by rw [ofText, hb]
      constructor
      · rw [hd]
        refine ⟨nofun, ?_⟩
        rintro ⟨-, ss, hss, -⟩
        exact absurd hss (hno ss)
      · intro e
        have heq : ofText t = .error e ↔ Brinefile.ofText t = .error e := by simp [hd, hb]
        rw [heq, Brinefile.ofText_eq_error_iff]
        constructor
        · rintro ⟨l, hl, rfl⟩
          exact .unknownSection hl
        · rintro (hl | ⟨hss, -⟩)
          · exact ⟨_, hl, rfl⟩
          · exact absurd hss (hno _)
  | ok b =>
      have hss : ∀ ss, Brinefile.HasSections t ss ↔ b.sections = ss := fun _ ↦ Brinefile.hasSections_iff hb
      have hknown := Brinefile.exists_hasSections_iff.mp ⟨b.sections, (hss _).mpr rfl⟩
      have hd : ofText t = ofSections b.sections := by rw [ofText, hb]
      rw [hd, exists_ofSections_iff]
      constructor
      · constructor
        · exact fun h ↦ ⟨hknown, b.sections, (hss _).mpr rfl, h⟩
        · rintro ⟨-, ss, hcut, h⟩
          exact (hss ss).mp hcut ▸ h
      · intro e
        rw [ofSections_eq_error_iff_fault]
        constructor
        · exact .sections ((hss _).mpr rfl)
        · rintro (hl | ⟨hcut, he⟩)
          · obtain ⟨l, hl, hno⟩ := hl.exists_not
            exact absurd (hknown l hl) hno
          · exact (hss _).mp hcut ▸ he

end Document

end Saltern
