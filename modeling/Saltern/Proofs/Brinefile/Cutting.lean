import Mathlib.Data.List.Basic
import Saltern.Proofs.Text.Lines

/-!
# Cutting at markers

A text is cut at its marker lines: what stands between two of them holds no marker, and lines put
together from plain lines and spelled markers are cut where they were put together.
-/

namespace Saltern

/-- The lines of a section as they stand in the text. -/
def Section.raws (s : Section) : List Text := s.lines.map Line.raw

/-- What a section holds, wherever it stands. -/
def Section.outline (s : Section) : Keyword × List Text := (s.keyword, s.raws)

namespace Line

theorem numberedFrom_append (n : Nat) (ts us : List Text) :
    numberedFrom n (ts ++ us) = numberedFrom n ts ++ numberedFrom (n + ts.length) us := by
  induction ts generalizing n with
  | nil => rfl
  | cons t ts ih =>
      rw [List.cons_append, numberedFrom, numberedFrom, ih, List.length_cons, List.cons_append]
      simp only [Nat.add_comm 1, Nat.add_assoc]

end Line

namespace Brinefile

variable {ls front : List Line} {l : Line} {preamble : List Line} {ss : List Section} {k : Keyword}

theorem gather_cons_of_ne_marker (hl : l.kind ≠ .marker) (h : gather ls = .ok (preamble, ss)) :
    gather (l :: ls) = .ok (l :: preamble, ss) := by
  rw [gather, if_neg hl, h]

theorem gather_append (hf : ∀ l ∈ front, l.kind ≠ .marker) (h : gather ls = .ok (preamble, ss)) :
    gather (front ++ ls) = .ok (front ++ preamble, ss) := by
  induction front with
  | nil => exact h
  | cons l front ih =>
      have hrest := ih fun m hm ↦ hf m (List.mem_cons_of_mem l hm)
      exact gather_cons_of_ne_marker (hf l List.mem_cons_self) hrest

/-- A spelled marker opens its section. -/
theorem gather_cons_of_marker (hl : l.raw = '%' :: k.name) (h : gather ls = .ok (preamble, ss)) :
    gather (l :: ls) = .ok ([], ⟨k, l.number, preamble⟩ :: ss) := by
  have hkind : l.kind = .marker := by
    rw [Line.kind, hl]
    cases k <;> decide
  have hspelled : Keyword.spelledBy l.content = k.name := by
    rw [Line.content, hl]
    cases k <;> decide
  rw [gather, if_pos hkind, hspelled, Keyword.ofName?_name, h]

/-- A line opens a section for all lines up to the next marker, or joins them. -/
theorem gather_cons_eq_ok (h : gather (l :: ls) = .ok (preamble, ss)) :
    ∃ body sections, gather ls = .ok (body, sections) ∧
      (l.kind = .marker ∧ preamble = [] ∧ (∃ k, ss = ⟨k, l.number, body⟩ :: sections) ∨
        l.kind ≠ .marker ∧ preamble = l :: body ∧ ss = sections) := by
  rw [gather] at h
  split at h
  · next hl =>
    split at h
    · cases h
    · split at h
      · cases h
      · next k _ _ body sections hg =>
        cases h
        exact ⟨body, _, hg, .inl ⟨hl, rfl, k, rfl⟩⟩
  · next hl =>
    split at h
    · cases h
    · next body sections hg =>
      cases h
      exact ⟨_, _, hg, .inr ⟨hl, rfl, rfl⟩⟩

/-- No marker is left among the lines between markers, and nothing is added. -/
theorem gather_lines (h : gather ls = .ok (preamble, ss)) :
    (∀ l ∈ preamble, l ∈ ls ∧ l.kind ≠ .marker) ∧
      ∀ s ∈ ss, ∀ l ∈ s.lines, l ∈ ls ∧ l.kind ≠ .marker := by
  induction ls generalizing preamble ss with
  | nil =>
      cases h
      exact ⟨nofun, nofun⟩
  | cons l ls ih =>
      obtain ⟨body, sections, hg, hcase⟩ := gather_cons_eq_ok h
      obtain ⟨hbody, hsections⟩ := ih hg
      have hlater : ∀ {m : Line}, m ∈ ls ∧ m.kind ≠ .marker → m ∈ l :: ls ∧ m.kind ≠ .marker :=
        fun hm ↦ hm.imp_left (List.mem_cons_of_mem l)
      rcases hcase with ⟨-, rfl, k, rfl⟩ | ⟨hl, rfl, rfl⟩
      · refine ⟨nofun, List.forall_mem_cons.mpr ⟨fun m hm ↦ hlater (hbody m hm), ?_⟩⟩
        exact fun s hs m hm ↦ hlater (hsections s hs m hm)
      · refine ⟨List.forall_mem_cons.mpr ⟨⟨List.mem_cons_self, hl⟩, fun m hm ↦ hlater (hbody m hm)⟩, ?_⟩
        exact fun s hs m hm ↦ hlater (hsections s hs m hm)

/-- The lines of outlines, each behind its spelled marker. -/
def spell (os : List (Keyword × List Text)) : List Text := os.flatMap fun o ↦ ('%' :: o.1.name) :: o.2

/-- Plain lines and spelled outlines are cut where they were put together. -/
theorem gather_spell {ts : List Text} {os : List (Keyword × List Text)}
    (ht : ∀ t ∈ ts, LineKind.ofRaw t ≠ .marker) (ho : ∀ o ∈ os, ∀ t ∈ o.2, LineKind.ofRaw t ≠ .marker)
    (n : Nat) :
    ∃ preamble ss, gather (Line.numberedFrom n (ts ++ spell os)) = .ok (preamble, ss) ∧
      preamble.map Line.raw = ts ∧ ss.map Section.outline = os := by
  have hplain : ∀ {us : List Text}, (∀ t ∈ us, LineKind.ofRaw t ≠ .marker) → ∀ m,
      ∀ l ∈ Line.numberedFrom m us, l.kind ≠ .marker := by
    intro us hus m l hl
    refine hus l.raw ?_
    rw [← Line.map_raw_numberedFrom m us]
    exact List.mem_map_of_mem hl
  suffices hspell : ∀ m, ∃ ss, gather (Line.numberedFrom m (spell os)) = .ok ([], ss) ∧
      ss.map Section.outline = os by
    obtain ⟨ss, hss, hout⟩ := hspell (n + ts.length)
    refine ⟨Line.numberedFrom n ts, ss, ?_, Line.map_raw_numberedFrom n ts, hout⟩
    rw [Line.numberedFrom_append]
    simpa using gather_append (hplain ht n) hss
  intro m
  induction os generalizing m with
  | nil => exact ⟨[], rfl, rfl⟩
  | cons o os ih =>
      obtain ⟨hbody, hrest⟩ := List.forall_mem_cons.mp ho
      obtain ⟨ss, hss, hout⟩ := ih hrest (m + 1 + o.2.length)
      refine ⟨⟨o.1, m + 1, Line.numberedFrom (m + 1) o.2⟩ :: ss, ?_, ?_⟩
      · rw [spell, List.flatMap_cons, List.cons_append, Line.numberedFrom, Line.numberedFrom_append]
        have := gather_append (hplain hbody (m + 1)) hss
        rw [List.append_nil] at this
        exact gather_cons_of_marker (l := ⟨m, _⟩) rfl this
      · rw [List.map_cons, hout, Section.outline, Section.raws, Line.map_raw_numberedFrom]

/-- The lines of a Brinefile are the text's, and only markers are set apart. -/
theorem ofText_lines {t : Text} {b : Brinefile} (h : ofText t = .ok b) :
    (∀ l ∈ b.preamble, l.raw ∈ Text.lines t ∧ l.kind ≠ .marker) ∧
      ∀ s ∈ b.sections, ∀ l ∈ s.lines, l.raw ∈ Text.lines t ∧ l.kind ≠ .marker := by
  have hraw : ∀ {l : Line}, l ∈ linesOf t → l.raw ∈ Text.lines t := by
    intro l hl
    rw [← Line.map_raw_numberedFrom 0 (Text.lines t)]
    exact List.mem_map_of_mem hl
  rw [ofText] at h
  cases hg : gather (linesOf t) with
  | error e => simp [hg] at h
  | ok r =>
      obtain ⟨preamble, ss⟩ := r
      simp only [hg, Except.ok.injEq] at h
      obtain rfl := h
      obtain ⟨hp, hs⟩ := gather_lines hg
      exact ⟨fun l hl ↦ (hp l hl).imp_left hraw, fun s hs' l hl ↦ (hs s hs' l hl).imp_left hraw⟩

end Brinefile

end Saltern
