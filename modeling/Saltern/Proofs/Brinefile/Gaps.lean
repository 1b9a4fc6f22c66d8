import Saltern.Proofs.Brinefile.PrintedBody

/-!
# Gaps

Where a printed body has two empty lines side by side, told from the lines it was printed from: a
lone equals sign stands behind a blank line or another such sign, with text before and behind them.
-/

namespace Saltern

open Text

/-- A blank line, or a lone equals sign, which is an item with neither name nor value. -/
def Line.IsGap (l : Line) : Prop := l.content = [] ∨ l.content = ['=']

/-- Whether a section of items has a lone equals sign right behind a gap, and text on both sides. -/
def Section.DoublesGap (s : Section) : Prop :=
  s.keyword.holdsItems = true ∧
    ∃ front gap sign back, s.lines = front ++ gap :: sign :: back ∧ gap.IsGap ∧ sign.content = ['='] ∧
      (∃ l ∈ front, ¬ l.IsGap) ∧ ∃ l ∈ back, ¬ l.IsGap

namespace Section

variable {k : Keyword} {b : Bool} {ls : List Line} {l : Line} {us vs : List Text} {s : Section}

theorem kind_of_content_eq_sign (h : l.content = ['=']) : l.kind = .entry := by
  refine LineKind.ofRaw_eq_entry_iff.mpr ⟨?_, ?_, ?_⟩
  · rw [← Line.content, h]
    simp
  · intro hp
    have := head?_trim hp (by decide)
    rw [← Line.content, h] at this
    simp at this
  · rw [← Line.content, h]
    decide

/-- Outside gaps, every line is printed as something. -/
theorem printLine_eq_nil_iff (hm : l.kind ≠ .marker) :
    printLine k l = [] ↔ l.content = [] ∨ k.holdsItems = true ∧ l.content = ['='] := by
  rcases printLine_eq (k := k) hm with ⟨h, -, -⟩ | ⟨h, himp⟩
  · rw [h, Keyword.respell_eq_nil_iff l.isTrimmed_content]
  · have hunindented : l.unindented = [] ↔ l.content = [] := by
      constructor
      · intro hnil
        rw [← Line.trim_unindented, hnil, trim_nil]
      · intro hnil
        exact Line.unindented_of_blank (LineKind.ofRaw_eq_blank_iff.mpr hnil)
    rw [h, hunindented, or_iff_left]
    rintro ⟨-, hsign⟩
    have := himp (kind_of_content_eq_sign hsign)
    rw [hsign] at this
    simp at this

theorem mem_squeeze (hl : l ∈ ls) (hne : printLine k l ≠ []) : printLine k l ∈ squeeze k b ls := by
  have hmem : printLine k l ∈ (ls.map (printLine k)).filter (!·.isEmpty) :=
    List.mem_filter.mpr ⟨List.mem_map_of_mem hl, by simpa using hne⟩
  rw [← filter_squeeze (b := b) rfl] at hmem
  exact (List.mem_filter.mp hmem).1

/-! ## From the printed lines to the source -/

/-- An empty line printed first comes from an entry that is printed as nothing. -/
theorem exists_of_squeeze_eq_cons (h : squeeze k false ls = [] :: vs) :
    ∃ blanks sign back, ls = blanks ++ sign :: back ∧ (∀ l ∈ blanks, l.kind = .blank) ∧
      sign.kind ≠ .blank ∧ printLine k sign = [] ∧ squeeze k false back = vs := by
  induction ls with
  | nil => cases h
  | cons l ls ih =>
      by_cases hl : l.kind = .blank
      · rw [squeeze_cons_of_blank hl] at h
        obtain ⟨blanks, sign, back, rfl, hblanks, hrest⟩ := ih h
        exact ⟨l :: blanks, sign, back, rfl, List.forall_mem_cons.mpr ⟨hl, hblanks⟩, hrest⟩
      · rw [squeeze_cons_of_ne_blank hl] at h
        obtain ⟨hnil, hrest⟩ := List.cons.inj h
        rw [hnil] at hrest
        exact ⟨[], l, ls, rfl, nofun, hl, hnil, hrest⟩

/-- An empty line printed behind another comes from a gap and an entry that is printed as nothing. -/
theorem exists_of_squeeze_behind_gap (hl : printLine k l = []) (h : squeeze k false ls = [] :: vs) :
    ∃ front gap sign back, l :: ls = front ++ gap :: sign :: back ∧ printLine k gap = [] ∧
      sign.kind ≠ .blank ∧ printLine k sign = [] ∧ squeeze k false back = vs := by
  obtain ⟨blanks, sign, back, rfl, hblanks, hsign, hprint, hback⟩ := exists_of_squeeze_eq_cons h
  have hgaps : ∀ m ∈ l :: blanks, printLine k m = [] :=
    List.forall_mem_cons.mpr ⟨hl, fun m hm ↦ printLine_of_blank (hblanks m hm)⟩
  refine ⟨(l :: blanks).dropLast, (l :: blanks).getLast (List.cons_ne_nil l blanks), sign, back,
    ?_, hgaps _ (List.getLast_mem _), hsign, hprint, hback⟩
  rw [List.append_cons (l :: blanks).dropLast, List.dropLast_append_getLast]
  rfl

/-- Two empty lines printed side by side come from a gap and an entry that is printed as nothing. -/
theorem exists_of_squeeze_eq_double (h : squeeze k b ls = us ++ [] :: [] :: vs) :
    ∃ front gap sign back, ls = front ++ gap :: sign :: back ∧ printLine k gap = [] ∧
      sign.kind ≠ .blank ∧ printLine k sign = [] ∧
      (∀ t ∈ us, t ≠ [] → ∃ l ∈ front, printLine k l = t) ∧ squeeze k false back = vs := by
  induction ls generalizing b us with
  | nil => simp at h
  | cons l ls ih =>
      have hlater : ∀ {c us'}, squeeze k c ls = us' ++ [] :: [] :: vs →
          (∀ t ∈ us, t ≠ [] → t = printLine k l ∨ t ∈ us') →
          ∃ front gap sign back, l :: ls = front ++ gap :: sign :: back ∧ printLine k gap = [] ∧
            sign.kind ≠ .blank ∧ printLine k sign = [] ∧
            (∀ t ∈ us, t ≠ [] → ∃ m ∈ front, printLine k m = t) ∧ squeeze k false back = vs := by
        intro c us' hc hus
        obtain ⟨front, gap, sign, back, rfl, hgap, hsign, hprint, hfront, hback⟩ := ih hc
        refine ⟨l :: front, gap, sign, back, rfl, hgap, hsign, hprint, fun t ht hne ↦ ?_, hback⟩
        rcases hus t ht hne with rfl | ht'
        · exact ⟨l, List.mem_cons_self, rfl⟩
        · obtain ⟨m, hm, hmt⟩ := hfront t ht' hne
          exact ⟨m, List.mem_cons_of_mem l hm, hmt⟩
      by_cases hl : l.kind = .blank
      · rw [squeeze_cons_of_blank hl] at h
        cases b with
        | false => exact hlater h fun t ht _ ↦ .inr ht
        | true =>
            cases us with
            | nil =>
                obtain ⟨front, gap, sign, back, hls, hgap, hsign, hprint, hback⟩ :=
                  exists_of_squeeze_behind_gap (printLine_of_blank hl) (List.cons.inj h).2
                exact ⟨front, gap, sign, back, hls, hgap, hsign, hprint, nofun, hback⟩
            | cons u us =>
                obtain ⟨rfl, hrest⟩ := List.cons.inj h
                exact hlater hrest fun t ht hne ↦ .inr ((List.mem_cons.mp ht).resolve_left hne)
      · rw [squeeze_cons_of_ne_blank hl] at h
        cases us with
        | nil =>
            obtain ⟨hnil, hrest⟩ := List.cons.inj h
            rw [hnil] at hrest
            obtain ⟨front, gap, sign, back, hls, hgap, hsign, hprint, hback⟩ :=
              exists_of_squeeze_behind_gap hnil hrest
            exact ⟨front, gap, sign, back, hls, hgap, hsign, hprint, nofun, hback⟩
        | cons u us =>
            obtain ⟨hu, hrest⟩ := List.cons.inj h
            exact hlater hrest fun t ht _ ↦ (List.mem_cons.mp ht).imp_left fun htu ↦ htu.trans hu.symm

/-! ## From the source to the printed lines -/

/-- What is printed behind some lines depends on the last line printed before. -/
theorem squeeze_append (k : Keyword) (b : Bool) (front : List Line) :
    ∃ c, (∀ rest, squeeze k b (front ++ rest) = squeeze k b front ++ squeeze k c rest) ∧
      (squeeze k b front = [] → c = b) ∧ ∀ t ∈ (squeeze k b front).getLast?, c = !t.isEmpty := by
  induction front generalizing b with
  | nil => exact ⟨b, fun _ ↦ rfl, fun _ ↦ rfl, nofun⟩
  | cons l front ih =>
      -- One line `t` is printed, or none, and the rest goes on behind it.
      have hstep : ∀ (ts : List Text) (c : Bool), (ts = [] → c = b) →
          (∀ t ∈ ts.getLast?, c = !t.isEmpty) →
          (∀ rest, squeeze k b (l :: rest) = ts ++ squeeze k c rest) →
          ∃ d, (∀ rest, squeeze k b (l :: front ++ rest) = squeeze k b (l :: front) ++ squeeze k d rest) ∧
            (squeeze k b (l :: front) = [] → d = b) ∧
            ∀ t ∈ (squeeze k b (l :: front)).getLast?, d = !t.isEmpty := by
        intro ts c hc hlast hts
        obtain ⟨d, happend, hnil, hd⟩ := ih c
        refine ⟨d, fun rest ↦ ?_, fun h ↦ ?_, fun t ht ↦ ?_⟩
        · rw [List.cons_append, hts, hts, happend, List.append_assoc]
        · rw [hts] at h
          obtain ⟨htsnil, hrest⟩ := List.append_eq_nil_iff.mp h
          rw [hnil hrest, hc htsnil]
        · rw [hts] at ht
          by_cases hrest : squeeze k c front = []
          · rw [hrest, List.append_nil] at ht
            rw [hnil hrest, hlast t ht]
          · rw [List.getLast?_append_of_ne_nil _ hrest] at ht
            exact hd t ht
      by_cases hl : l.kind = .blank
      · cases b with
        | false => exact hstep [] false (fun _ ↦ rfl) nofun fun rest ↦ squeeze_cons_of_blank hl
        | true => exact hstep [[]] false nofun (by simp) fun rest ↦ squeeze_cons_of_blank hl
      · exact hstep [printLine k l] _ nofun (by simp) fun rest ↦ squeeze_cons_of_ne_blank hl

/-- An entry that is printed as nothing behind a gap leaves two empty lines side by side. -/
theorem squeeze_double (back : List Line) {front : List Line} {gap sign : Line} (hgap : printLine k gap = [])
    (hsign : sign.kind ≠ .blank) (hprint : printLine k sign = []) (hfront : ∃ l ∈ front, printLine k l ≠ []) :
    ∃ us, squeeze k false (front ++ gap :: sign :: back) = us ++ [] :: [] :: squeeze k false back ∧
      ∃ t ∈ us, t ≠ [] := by
  obtain ⟨c, happend, -, hlast⟩ := squeeze_append k false front
  obtain ⟨l, hl, hne⟩ := hfront
  have hmem : printLine k l ∈ squeeze k false front := mem_squeeze hl hne
  have hback : ∀ b, squeeze k b (sign :: back) = [] :: squeeze k false back := by
    intro b
    rw [squeeze_cons_of_ne_blank hsign, hprint]
    rfl
  rw [happend]
  by_cases hkind : gap.kind = .blank
  · rw [squeeze_cons_of_blank hkind, hback]
    cases c with
    | true => exact ⟨squeeze k false front, rfl, _, hmem, hne⟩
    | false =>
        -- The blank line is not printed, since an empty line precedes it.
        obtain ⟨us, t, hus⟩ := List.eq_nil_or_concat (squeeze k false front) |>.resolve_left
          (List.ne_nil_of_mem hmem)
        have ht : t = [] := by
          have := hlast t (by simp [hus])
          simpa using this
        rw [hus, ht] at hmem ⊢
        refine ⟨us, by simp, _, ?_, hne⟩
        simpa [hne] using hmem
  · rw [squeeze_cons_of_ne_blank hkind, hgap, hback]
    exact ⟨squeeze k false front, rfl, _, hmem, hne⟩

/-- A section is printed with two empty lines side by side exactly where a lone equals sign stands
right behind a gap, with text on both sides. -/
theorem noDoubleEmpty_printBody_iff (hk : s.keyword ≠ .readme) (hm : ∀ l ∈ s.lines, l.kind ≠ .marker) :
    NoDoubleEmpty s.printBody ↔ ¬ s.DoublesGap := by
  have hnil : ∀ l ∈ s.lines, printLine s.keyword l = [] → l.IsGap :=
    fun l hl h ↦ ((printLine_eq_nil_iff (hm l hl)).mp h).imp_right And.right
  have hgap : s.keyword.holdsItems = true → ∀ l ∈ s.lines, l.IsGap → printLine s.keyword l = [] :=
    fun hitems l hl h ↦ (printLine_eq_nil_iff (hm l hl)).mpr (h.imp_right fun hc ↦ ⟨hitems, hc⟩)
  rw [← not_iff_not, not_not, printBody_of_ne_readme hk, not_noDoubleEmpty_trimEmptyEdges_iff]
  constructor
  · rintro ⟨us, vs, hsqueeze, ⟨u, hu, hune⟩, v, hv, hvne⟩
    obtain ⟨front, gap, sign, back, hlines, hgapnil, hsign, hprint, hfront, hback⟩ :=
      exists_of_squeeze_eq_double hsqueeze
    have hmem : ∀ l ∈ front ++ gap :: sign :: back, l ∈ s.lines := fun l hl ↦ hlines ▸ hl
    have hsignmem := hmem sign (by simp)
    obtain hcontent | ⟨hitems, hcontent⟩ := (printLine_eq_nil_iff (hm sign hsignmem)).mp hprint
    · exact absurd (LineKind.ofRaw_eq_blank_iff.mpr hcontent) hsign
    · refine ⟨hitems, front, gap, sign, back, hlines, hnil gap (hmem gap (by simp)) hgapnil, hcontent,
        ?_, ?_⟩
      · obtain ⟨l, hl, rfl⟩ := hfront u hu hune
        exact ⟨l, hl, fun h ↦ hune (hgap hitems l (hmem l (by simp [hl])) h)⟩
      · rw [← hback] at hv
        obtain ⟨l, hl, rfl⟩ := exists_of_mem_squeeze hv hvne
        exact ⟨l, hl, fun h ↦ hvne (hgap hitems l (hmem l (by simp [hl])) h)⟩
  · rintro ⟨hitems, front, gap, sign, back, hlines, hgapline, hcontent, ⟨l, hl, hlgap⟩, m, hmback, hmgap⟩
    have hmem : ∀ l ∈ front ++ gap :: sign :: back, l ∈ s.lines := fun l hl ↦ hlines ▸ hl
    have hsign : sign.kind ≠ .blank := by
      rw [kind_of_content_eq_sign hcontent]
      decide
    have hgapnil := hgap hitems gap (hmem gap (by simp)) hgapline
    have hprint := hgap hitems sign (hmem sign (by simp)) (.inr hcontent)
    obtain ⟨us, hus, hne⟩ := squeeze_double back hgapnil hsign hprint
      ⟨l, hl, fun h ↦ hlgap (hnil l (hmem l (by simp [hl])) h)⟩
    have hmne : printLine s.keyword m ≠ [] := fun h ↦ hmgap (hnil m (hmem m (by simp [hmback])) h)
    exact ⟨us, _, hlines ▸ hus, hne, _, mem_squeeze hmback hmne, hmne⟩

end Section

end Saltern
