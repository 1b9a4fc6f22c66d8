import Saltern.Proofs.Brinefile.Faults

/-!
# The entry lines of a keyword

The entries of all sections of one keyword are the entry lines of the text for which the last marker
before them names the keyword, each once and in the order of the text.
-/

namespace Saltern

open Text

/-- Whether a line is a marker that names a keyword. -/
def Keyword.IsMarkedBy (k : Keyword) (raw : Text) : Prop := raw.head? = some '%' ∧ lower (trim raw.tail) = k.name

theorem Keyword.name_injective : Function.Injective Keyword.name := by
  intro k k' h
  exact Option.some.inj ((ofName?_name k).symm.trans (h ▸ ofName?_name k'))

namespace Brinefile

/-- Whether a line of a text, with its number counted from one, is an entry line of a section of some
keyword: the last marker before it names that keyword. -/
structure IsEntryLine (t : Text) (k : Keyword) (n : Nat) (raw : Text) : Prop where
  kind : LineKind.ofRaw raw = .entry
  place : ∃ front marker between rest, Text.lines t = front ++ marker :: (between ++ raw :: rest) ∧
    n = front.length + between.length + 2 ∧ k.IsMarkedBy marker ∧ ∀ m ∈ between, m.head? ≠ some '%'

/-- Whether some numbered lines are all entry lines of a keyword's sections, in the order of the text. -/
structure AreEntryLines (t : Text) (k : Keyword) (es : List (Nat × Text)) : Prop where
  increasing : (es.map Prod.fst).Pairwise (· < ·)
  mem_iff : ∀ n raw, (n, raw) ∈ es ↔ IsEntryLine t k n raw

end Brinefile

/-! ## Numbered lines -/

namespace Line

variable {l : Line} {n : Nat} {ts : List Text} {us vs : List Line}

theorem le_index_of_mem (h : l ∈ numberedFrom n ts) : n ≤ l.index := by
  induction ts generalizing n with
  | nil => cases h
  | cons t ts ih =>
      rcases List.mem_cons.mp h with rfl | h
      · exact Nat.le_refl n
      · exact Nat.le_of_succ_le (ih h)

theorem pairwise_numberedFrom (n : Nat) (ts : List Text) :
    (numberedFrom n ts).Pairwise fun l m ↦ l.index < m.index := by
  induction ts generalizing n with
  | nil => exact .nil
  | cons t ts ih => exact (ih (n + 1)).cons fun m hm ↦ le_index_of_mem hm

/-- A line has as many lines before it as its index says. -/
theorem index_of_numberedFrom (h : numberedFrom n ts = us ++ l :: vs) : l.index = n + us.length := by
  induction us generalizing n ts with
  | nil =>
      cases ts with
      | nil => cases h
      | cons t ts => exact (congrArg index (List.cons.inj h).1).symm
  | cons u us ih =>
      cases ts with
      | nil => cases h
      | cons t ts =>
          rw [ih (List.cons.inj h).2, List.length_cons]
          omega

end Line

namespace Brinefile

variable {ls preamble : List Line} {ss : List Section} {l m : Line} {k : Keyword} {t : Text} {b : Brinefile}

/-! ## Lines and the markers before them -/

/-- Whether a line has no marker before it. -/
def Leads (ls : List Line) (l : Line) : Prop :=
  ∃ between rest, ls = between ++ l :: rest ∧ ∀ m ∈ between, ¬ m.IsMarker

/-- Whether the last marker before a line names a keyword. -/
def Follows (k : Keyword) (ls : List Line) (l : Line) : Prop :=
  ∃ front marker behind, ls = front ++ marker :: behind ∧ marker.IsMarker ∧ marker.marked = k.name ∧
    Leads behind l

@[simp] theorem not_leads_nil : ¬ Leads [] l := by
  rintro ⟨between, rest, h, -⟩
  cases between <;> cases h

theorem leads_cons_iff : Leads (m :: ls) l ↔ l = m ∨ ¬ m.IsMarker ∧ Leads ls l := by
  constructor
  · rintro ⟨between, rest, h, hplain⟩
    cases between with
    | nil => exact .inl (List.cons.inj h).1.symm
    | cons a between =>
        obtain ⟨rfl, rfl⟩ := List.cons.inj h
        obtain ⟨hm, hplain⟩ := List.forall_mem_cons.mp hplain
        exact .inr ⟨hm, between, rest, rfl, hplain⟩
  · rintro (rfl | ⟨hm, between, rest, rfl, hplain⟩)
    · exact ⟨[], ls, rfl, nofun⟩
    · exact ⟨m :: between, rest, rfl, List.forall_mem_cons.mpr ⟨hm, hplain⟩⟩

@[simp] theorem not_follows_nil : ¬ Follows k [] l := by
  rintro ⟨front, marker, behind, h, -⟩
  cases front <;> cases h

theorem follows_cons_iff :
    Follows k (m :: ls) l ↔ m.IsMarker ∧ m.marked = k.name ∧ Leads ls l ∨ Follows k ls l := by
  constructor
  · rintro ⟨front, marker, behind, h, hmarker⟩
    cases front with
    | nil =>
        obtain ⟨rfl, rfl⟩ := List.cons.inj h
        exact .inl hmarker
    | cons a front =>
        obtain ⟨rfl, rfl⟩ := List.cons.inj h
        exact .inr ⟨front, marker, behind, rfl, hmarker⟩
  · rintro (hmarker | ⟨front, marker, behind, rfl, hmarker⟩)
    · exact ⟨[], m, ls, rfl, hmarker⟩
    · exact ⟨m :: front, marker, behind, rfl, hmarker⟩

/-! ## Lines and the sections they are in -/

/-- The entries of all sections of a keyword. -/
def entriesOf (k : Keyword) (ss : List Section) : List Line :=
  (ss.filter (·.keyword = k)).flatMap Section.entries

theorem entriesOf_cons (s : Section) :
    entriesOf k (s :: ss) = (if s.keyword = k then s.entries else []) ++ entriesOf k ss := by
  unfold entriesOf
  rw [List.filter_cons]
  by_cases h : s.keyword = k <;> simp [h]

/-- The preamble holds the lines that no marker is before. -/
theorem mem_preamble_iff (h : gather ls = .ok (preamble, ss)) (hl : ¬ l.IsMarker) :
    l ∈ preamble ↔ Leads ls l := by
  induction ls generalizing preamble ss with
  | nil =>
      cases h
      simp
  | cons m ls ih =>
      rw [leads_cons_iff]
      by_cases hm : m.IsMarker
      · rw [gather_cons_of_isMarker hm] at h
        have hno : l ≠ m := fun hlm ↦ hl (hlm ▸ hm)
        cases hk : Keyword.ofName? m.marked with
        | none => simp [hk] at h
        | some k =>
            rw [hk] at h
            obtain ⟨⟨body, sections⟩, -, hr⟩ := map_eq_ok_iff.mp h
            obtain ⟨rfl, -⟩ := Prod.mk.inj hr
            simp [hno, hm]
      · rw [gather_cons_of_not_isMarker hm] at h
        obtain ⟨⟨body, sections⟩, hg, hr⟩ := map_eq_ok_iff.mp h
        obtain ⟨rfl, -⟩ := Prod.mk.inj hr
        rw [List.mem_cons, ih hg, and_iff_right hm]

/-- The sections of a keyword hold the lines that the last marker before them puts there. -/
theorem mem_entriesOf_iff (h : gather ls = .ok (preamble, ss)) :
    l ∈ entriesOf k ss ↔ l.kind = .entry ∧ Follows k ls l := by
  induction ls generalizing preamble ss with
  | nil =>
      cases h
      simp [entriesOf]
  | cons m ls ih =>
      rw [follows_cons_iff]
      by_cases hm : m.IsMarker
      · rw [gather_cons_of_isMarker hm] at h
        cases hk : Keyword.ofName? m.marked with
        | none => simp [hk] at h
        | some k' =>
            rw [hk] at h
            obtain ⟨⟨body, sections⟩, hg, hr⟩ := map_eq_ok_iff.mp h
            obtain ⟨-, rfl⟩ := Prod.mk.inj hr
            have hkeyword : k' = k ↔ m.marked = k.name := by
              rw [← Keyword.name_of_ofName? hk]
              exact Keyword.name_injective.eq_iff.symm
            rw [entriesOf_cons, List.mem_append, ih hg, and_or_left]
            refine or_congr_left ?_
            by_cases hentry : l.kind = .entry
            · have hplain : ¬ l.IsMarker := by
                rw [← Line.kind_eq_marker_iff, hentry]
                decide
              rw [← mem_preamble_iff hg hplain, ← hkeyword]
              by_cases hkk : k' = k <;> simp [Section.entries, hkk, hentry, hm]
            · refine iff_of_false (fun hl ↦ hentry ?_) fun hl ↦ hentry hl.1
              split at hl
              · simpa using (List.mem_filter.mp hl).2
              · cases hl
      · rw [gather_cons_of_not_isMarker hm] at h
        obtain ⟨⟨body, sections⟩, hg, hr⟩ := map_eq_ok_iff.mp h
        obtain ⟨-, rfl⟩ := Prod.mk.inj hr
        rw [ih hg, or_iff_right fun h ↦ hm h.1]

/-- They stand there in their order. -/
theorem entriesOf_sublist (h : gather ls = .ok (preamble, ss)) : (entriesOf k ss).Sublist ls := by
  obtain ⟨pieces, hcut, rfl⟩ := gather_eq_ok_iff.mp h
  have hentries : (entriesOf k (pieces.map Prod.snd)).Sublist (pieces.flatMap fun p ↦ p.1 :: p.2.lines) := by
    clear h hcut
    induction pieces with
    | nil => exact .slnil
    | cons p pieces ih =>
        rw [List.map_cons, entriesOf_cons, List.flatMap_cons]
        refine List.Sublist.append (List.Sublist.cons _ ?_) ih
        split
        · exact List.filter_sublist
        · exact List.nil_sublist _
  rw [hcut.lines]
  exact hentries.trans (List.sublist_append_right _ _)

/-! ## The entry lines of a text -/

theorem gather_of_ofText (hb : ofText t = .ok b) : gather (linesOf t) = .ok (b.preamble, b.sections) := by
  rw [ofText] at hb
  cases hg : gather (linesOf t) with
  | error e => simp [hg] at hb
  | ok r =>
      rw [hg] at hb
      cases hb
      rfl

theorem isEntryLine_iff {n : Nat} {raw : Text} :
    IsEntryLine t k n raw ↔
      ∃ l : Line, (l.number, l.raw) = (n, raw) ∧ l.kind = .entry ∧ Follows k (linesOf t) l := by
  have hsplit : ∀ us vs : List Text, Text.lines t = us ++ vs →
      linesOf t = Line.numberedFrom 0 us ++ Line.numberedFrom us.length vs := by
    intro us vs h
    rw [linesOf, h, Line.numberedFrom_append, Nat.zero_add]
  have hraw : ∀ n (us : List Text), (∀ u ∈ us, u.head? ≠ some '%') ↔
      ∀ m ∈ Line.numberedFrom n us, ¬ m.IsMarker := by
    intro n us
    conv => lhs; rw [← Line.map_raw_numberedFrom n us, List.forall_mem_map]
    rfl
  constructor
  · rintro ⟨hkind, front, marker, between, rest, hlines, rfl, hmarker, hplain⟩
    refine ⟨⟨front.length + between.length + 1, raw⟩, rfl, hkind,
      Line.numberedFrom 0 front, ⟨front.length, marker⟩, _, ?_, hmarker.1, hmarker.2,
      Line.numberedFrom (front.length + 1) between, Line.numberedFrom (front.length + between.length + 2) rest,
      rfl, (hraw _ between).mp hplain⟩
    rw [hsplit _ _ hlines, Line.numberedFrom, Line.numberedFrom_append, Line.numberedFrom]
    simp only [Nat.add_right_comm _ 1]
  · rintro ⟨l, hl, hkind, front, marker, behind, hlines, hmarker, hmarked, between, rest, rfl, hplain⟩
    obtain ⟨rfl, rfl⟩ := Prod.mk.inj hl
    have hbefore : linesOf t = (front ++ marker :: between) ++ l :: rest := by rw [hlines]; simp
    have hindex : l.index = 0 + (front ++ marker :: between).length := Line.index_of_numberedFrom hbefore
    refine ⟨hkind, front.map Line.raw, marker.raw, between.map Line.raw, rest.map Line.raw, ?_, ?_,
      ⟨hmarker, hmarked⟩, List.forall_mem_map.mpr hplain⟩
    · rw [← Line.map_raw_numberedFrom 0 (Text.lines t), ← linesOf, hlines]
      simp
    · rw [Line.number, hindex]
      simp
      omega

/-- The entries of the sections of a keyword are all its entry lines. -/
theorem areEntryLines (hb : ofText t = .ok b) (k : Keyword) :
    AreEntryLines t k ((entriesOf k b.sections).map fun l ↦ (l.number, l.raw)) where
  increasing := by
    rw [List.map_map, List.pairwise_map]
    refine List.Pairwise.imp ?_ ((Line.pairwise_numberedFrom 0 (Text.lines t)).sublist
      (entriesOf_sublist (gather_of_ofText hb)))
    exact fun h ↦ Nat.succ_lt_succ h
  mem_iff := by
    intro n raw
    rw [isEntryLine_iff, List.mem_map]
    refine exists_congr fun l ↦ ?_
    rw [mem_entriesOf_iff (gather_of_ofText hb), and_comm]

end Brinefile

end Saltern
