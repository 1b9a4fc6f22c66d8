import Saltern.Proofs.Brinefile.Cutting
import Saltern.Proofs.Brinefile.PrintedLine
import Saltern.Proofs.Text.EmptyLines

/-!
# Printed sections

The body of a section is printed line by line, with one empty line for a run of blank lines and
none at the edges. Printed again it stays as it is, unless it holds two empty lines side by side:
that happens where a lone equals sign, which is printed as nothing, follows a gap.
-/

namespace Saltern

open Text

namespace Section

variable {k : Keyword} {b : Bool} {ls ms : List Line} {l m : Line} {s s' : Section}

/-! ## One line at a time -/

theorem printLine_of_blank (h : l.kind = .blank) : printLine k l = [] := by
  have hcontent : l.content = [] := LineKind.ofRaw_eq_blank_iff.mp h
  simp [printLine, h, hcontent]

@[simp] theorem squeeze_nil (k : Keyword) (b : Bool) : squeeze k b [] = [] := rfl

theorem squeeze_cons_of_blank (h : l.kind = .blank) :
    squeeze k b (l :: ls) = (if b then [[]] else []) ++ squeeze k false ls := by
  rw [squeeze, if_pos h]
  cases b <;> rfl

theorem squeeze_cons_of_ne_blank (h : l.kind ≠ .blank) :
    squeeze k b (l :: ls) = printLine k l :: squeeze k (!(printLine k l).isEmpty) ls := by
  rw [squeeze, if_neg h]

theorem printBody_of_readme (h : s.keyword = .readme) :
    s.printBody = trimEmptyEdges (s.raws.map trimSpacesEnd) := by
  rw [printBody, if_pos h, raws, List.map_map]
  rfl

theorem printBody_of_ne_readme (h : s.keyword ≠ .readme) :
    s.printBody = trimEmptyEdges (squeeze s.keyword false s.lines) := by
  rw [printBody, if_neg h]

/-- A choice among lines that passes over empty ones does not see the squeezing. -/
theorem filter_squeeze {q : Text → Bool} (hq : q [] = false) :
    (squeeze k b ls).filter q = (ls.map (printLine k)).filter q := by
  induction ls generalizing b with
  | nil => rfl
  | cons l ls ih =>
      rw [List.map_cons, List.filter_cons]
      by_cases h : l.kind = .blank
      · rw [squeeze_cons_of_blank h, printLine_of_blank h, hq, List.filter_append, ih]
        cases b <;> simp [hq]
      · rw [squeeze_cons_of_ne_blank h, List.filter_cons, ih]

theorem filter_printBody {q : Text → Bool} (hq : q [] = false) (h : s.keyword ≠ .readme) :
    s.printBody.filter q = (s.lines.map (printLine s.keyword)).filter q := by
  rw [printBody_of_ne_readme h, filter_trimEmptyEdges hq, filter_squeeze hq]

/-- A printed line that says something was printed from one of the lines. -/
theorem exists_of_mem_squeeze {t : Text} (h : t ∈ squeeze k b ls) (ht : t ≠ []) :
    ∃ l ∈ ls, printLine k l = t := by
  have hmem : t ∈ (squeeze k b ls).filter (!·.isEmpty) := List.mem_filter.mpr ⟨h, by simpa using ht⟩
  rw [filter_squeeze rfl] at hmem
  exact List.mem_map.mp (List.mem_filter.mp hmem).1

theorem exists_of_mem_printBody {t : Text} (h : t ∈ s.printBody) (ht : t ≠ []) :
    ∃ l ∈ s.lines, t = printLine s.keyword l ∨ s.keyword = .readme ∧ t = trimSpacesEnd l.raw := by
  by_cases hk : s.keyword = .readme
  · rw [printBody_of_readme hk, raws, List.map_map] at h
    obtain ⟨l, hl, rfl⟩ := List.mem_map.mp (mem_of_mem_trimEmptyEdges h)
    exact ⟨l, hl, .inr ⟨hk, rfl⟩⟩
  · rw [printBody_of_ne_readme hk] at h
    obtain ⟨l, hl, hlt⟩ := exists_of_mem_squeeze (mem_of_mem_trimEmptyEdges h) ht
    exact ⟨l, hl, .inl hlt.symm⟩

/-! ## Printing again -/

/-- A line that is printed as it stands, and as one empty line at most where it is blank. -/
def Settled (k : Keyword) (l : Line) : Prop := l.raw = [] ∨ l.kind ≠ .blank ∧ printLine k l = l.raw

theorem settled_of_raw_eq (hm : l.kind ≠ .marker) (hraw : m.raw = printLine k l) : Settled k m := by
  by_cases hnil : printLine k l = []
  · exact .inl (hraw.trans hnil)
  · refine .inr ⟨?_, (printLine_of_raw_eq hm hraw).trans hraw.symm⟩
    rw [Line.kind, hraw, kind_printLine hm hnil]
    exact fun h ↦ hnil (printLine_of_blank h)

theorem kind_of_raw_eq_nil (h : l.raw = []) : l.kind = .blank := by
  rw [Line.kind, h]
  rfl

theorem Settled.ne_nil_of_kind (h : l.kind ≠ .blank) : l.raw ≠ [] :=
  fun hnil ↦ h (kind_of_raw_eq_nil hnil)

/-- Settled lines are printed as they stand when no two of them are empty side by side. -/
theorem squeeze_of_settled (hs : ∀ l ∈ ls, Settled k l) (hd : NoDoubleEmpty (ls.map Line.raw))
    (hb : b = false → ∀ l ∈ ls.head?, l.raw ≠ []) : squeeze k b ls = ls.map Line.raw := by
  induction ls generalizing b with
  | nil => rfl
  | cons l ls ih =>
      have hrest : ∀ m ∈ ls, Settled k m := fun m hm ↦ hs m (List.mem_cons_of_mem l hm)
      rw [List.map_cons, NoDoubleEmpty, List.isChain_cons] at hd
      rcases hs l List.mem_cons_self with hnil | ⟨hkind, hprint⟩
      · have hbt : b = true := by
          by_contra hf
          exact hb (by simpa using hf) l rfl hnil
        rw [squeeze_cons_of_blank (kind_of_raw_eq_nil hnil), hbt, ih hrest hd.2]
        · rw [List.map_cons, hnil]
          rfl
        · intro _ m hm hmnil
          exact hd.1 m.raw (by simp [List.head?_map, Option.mem_def.mp hm]) ⟨hnil, hmnil⟩
      · have hne := Settled.ne_nil_of_kind hkind
        rw [squeeze_cons_of_ne_blank hkind, hprint, ih hrest hd.2, List.map_cons]
        simp [hne]

/-- From settled lines no two empty lines are printed side by side. -/
theorem noDoubleEmpty_squeeze (hs : ∀ l ∈ ls, Settled k l) :
    NoDoubleEmpty (squeeze k b ls) ∧ (b = false → ∀ t ∈ (squeeze k b ls).head?, t ≠ []) := by
  induction ls generalizing b with
  | nil => exact ⟨.nil, nofun⟩
  | cons l ls ih =>
      have hrest : ∀ m ∈ ls, Settled k m := fun m hm ↦ hs m (List.mem_cons_of_mem l hm)
      rcases hs l List.mem_cons_self with hnil | ⟨hkind, hprint⟩
      · obtain ⟨hd, hhead⟩ := ih (b := false) hrest
        rw [squeeze_cons_of_blank (kind_of_raw_eq_nil hnil)]
        cases b with
        | false => exact ⟨hd, hhead⟩
        | true => exact ⟨hd.cons fun t ht h ↦ hhead rfl t ht h.2, nofun⟩
      · have hne := Settled.ne_nil_of_kind hkind
        rw [squeeze_cons_of_ne_blank hkind, hprint]
        refine ⟨(ih hrest).1.cons fun t _ h ↦ hne h.1, fun _ t ht ↦ ?_⟩
        exact (Option.some.inj ht) ▸ hne

/-- The lines of a printed body stay as they are when they are printed again. -/
theorem settled_printed (hk : s.keyword ≠ .readme) (hm : ∀ l ∈ s.lines, l.kind ≠ .marker)
    (hraws : s'.raws = s.printBody ++ [[]]) : ∀ m ∈ s'.lines, Settled s.keyword m := by
  intro m hm'
  by_cases hnil : m.raw = []
  · exact .inl hnil
  · have hmem : m.raw ∈ s.printBody ++ [[]] := hraws ▸ List.mem_map_of_mem hm'
    have hraw : m.raw ∈ s.printBody := by simpa [hnil] using hmem
    obtain ⟨l, hl, h | ⟨h, -⟩⟩ := exists_of_mem_printBody hraw hnil
    · exact settled_of_raw_eq (hm l hl) h
    · exact absurd h hk

/-- Lines of a printed body without two empty ones side by side are all printed again. -/
theorem trimEmptyEdges_squeeze_printed {ls : List Line} {ts : List Text} (hedges : BareEdges List.isEmpty ts)
    (hd : NoDoubleEmpty ts) (hraws : ls.map Line.raw = ts ++ [[]]) (hsettled : ∀ m ∈ ls, Settled k m) :
    trimEmptyEdges (squeeze k false ls) = ts := by
  cases ts with
  | nil =>
      obtain ⟨m, ms, hms, hmraw, hrest⟩ := List.map_eq_cons_iff.mp hraws
      rw [hms, squeeze_cons_of_blank (kind_of_raw_eq_nil hmraw), List.map_eq_nil_iff.mp hrest]
      rfl
  | cons t ts =>
      have hchain : NoDoubleEmpty (ls.map Line.raw) := by
        rw [hraws, NoDoubleEmpty, List.isChain_append]
        refine ⟨hd, .singleton _, fun x hx y _ h ↦ ?_⟩
        have := hedges.2 x hx
        simp [h.1] at this
      have hfirst : ∀ m ∈ ls.head?, m.raw ≠ [] := by
        intro m hm hnil
        have hhead : (ls.map Line.raw).head? = some m.raw := by
          rw [List.head?_map, Option.mem_def.mp hm]
          rfl
        rw [hraws] at hhead
        have := hedges.1 t rfl
        simp [Option.some.inj hhead, hnil] at this
      rw [squeeze_of_settled hsettled hchain fun _ ↦ hfirst, hraws, trimEmptyEdges_append_nil]
      exact trimEmptyEdges_eq_self_iff.mpr hedges

/-- A printed body is printed again as it is exactly when it holds no two empty lines side by
side. -/
theorem printBody_printed_iff (hk : s.keyword ≠ .readme) (hm : ∀ l ∈ s.lines, l.kind ≠ .marker)
    (hkey : s'.keyword = s.keyword) (hraws : s'.raws = s.printBody ++ [[]]) :
    s'.printBody = s.printBody ↔ NoDoubleEmpty s.printBody := by
  have hsettled := settled_printed hk hm hraws
  have hedges : BareEdges List.isEmpty s.printBody :=
    printBody_of_ne_readme hk ▸ bareEdges_trimEmptyEdges _
  have hk' : s'.keyword ≠ .readme := hkey ▸ hk
  rw [printBody_of_ne_readme hk', hkey]
  constructor
  · intro h
    rw [← h]
    obtain ⟨us, vs, hts, -, -⟩ := exists_eq_trimEmptyEdges (squeeze s.keyword false s'.lines)
    exact List.IsChain.infix (noDoubleEmpty_squeeze hsettled).1 ⟨us, vs, hts.symm⟩
  · exact fun hd ↦ trimEmptyEdges_squeeze_printed hedges hd hraws hsettled

/-- A printed readme is always printed again as it is. -/
theorem printBody_printed_of_readme (hk : s.keyword = .readme) (hkey : s'.keyword = s.keyword)
    (hraws : s'.raws = s.printBody ++ [[]]) : s'.printBody = s.printBody := by
  have hfixed : s.printBody.map trimSpacesEnd = s.printBody := by
    refine (List.map_congr_left fun t ht ↦ ?_).trans (List.map_id _)
    rw [printBody_of_readme hk] at ht
    obtain ⟨u, -, rfl⟩ := List.mem_map.mp (mem_of_mem_trimEmptyEdges ht)
    exact trimSpacesEnd_trimSpacesEnd u
  rw [printBody_of_readme (hkey.trans hk), hraws, List.map_append, hfixed, List.map_singleton,
    trimSpacesEnd_nil, trimEmptyEdges_append_nil, printBody_of_readme hk, trimEmptyEdges_trimEmptyEdges]

end Section

end Saltern
