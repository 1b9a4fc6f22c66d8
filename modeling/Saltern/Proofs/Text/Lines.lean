import Mathlib.Data.List.Basic
import Saltern.Brinefile.Layout

/-!
# Lines put together and cut again

Printed lines are joined, each with its ending, and the next reading cuts the text at line feeds.
With CRLF it finds the very lines that were joined. With the plain line feed it takes a carriage
return at the end of a line for a part of the ending: that return is gone.
-/

namespace Saltern

namespace Text

variable {t l r : Text} {c : Char}

/-- A line without the carriage return at its end. -/
def dropReturn (l : Text) : Text := if l.getLast? = some '\r' then l.dropLast else l

@[simp] theorem dropReturn_nil : dropReturn [] = [] := rfl

@[simp] theorem dropReturn_append_return (l : Text) : dropReturn (l ++ ['\r']) = l := by
  simp [dropReturn]

theorem dropReturn_of_ne (h : l.getLast? ≠ some '\r') : dropReturn l = l := if_neg h

theorem append_return_of_getLast? (h : l.getLast? = some '\r') : dropReturn l ++ ['\r'] = l := by
  obtain ⟨hne, hlast⟩ := List.mem_getLast?_eq_getLast h
  rw [dropReturn, if_pos h, hlast, List.dropLast_append_getLast]

theorem dropReturn_cons_cons (c d : Char) (l : Text) :
    dropReturn (c :: d :: l) = c :: dropReturn (d :: l) := by
  unfold dropReturn
  rw [List.getLast?_cons_cons]
  split <;> rfl

theorem dropReturn_isPrefix (l : Text) : dropReturn l <+: l := by
  unfold dropReturn
  split
  · exact List.dropLast_prefix l
  · exact List.prefix_rfl

theorem length_flatten_map_dropReturn (ls : List Text) :
    (ls.map dropReturn).flatten.length ≤ ls.flatten.length := by
  induction ls with
  | nil => exact Nat.le_refl 0
  | cons l ls ih =>
      have := (dropReturn_isPrefix l).length_le
      simp only [List.map_cons, List.flatten_cons, List.length_append]
      omega

/-- Lines that lose nothing with their carriage returns have none. -/
theorem getLast?_ne_return_of_length_le {ls : List Text}
    (h : ls.flatten.length ≤ (ls.map dropReturn).flatten.length) : ∀ l ∈ ls, l.getLast? ≠ some '\r' := by
  induction ls with
  | nil => nofun
  | cons l ls ih =>
      have hl := (dropReturn_isPrefix l).length_le
      have hls := length_flatten_map_dropReturn ls
      simp only [List.map_cons, List.flatten_cons, List.length_append] at h
      refine List.forall_mem_cons.mpr ⟨fun hlast ↦ ?_, ih (by omega)⟩
      have := congrArg List.length (append_return_of_getLast? hlast)
      rw [List.length_append, List.length_singleton] at this
      omega

/-! ## Cutting at line feeds -/

theorem lines_cons (hc : c ≠ '\n') (hr : c = '\r' → r.head? ≠ some '\n') :
    lines (c :: r) = consHead c (lines r) := by
  rw [lines]
  · rintro r' rfl rfl
    exact hr rfl rfl
  · exact hc

/-- A line feed ends a line, together with the carriage return before it. -/
theorem lines_append_lf (h : '\n' ∉ l) : lines (l ++ '\n' :: r) = dropReturn l :: lines r := by
  induction l with
  | nil => rw [List.nil_append, lines, dropReturn_nil]
  | cons c l ih =>
      have hc : c ≠ '\n' := fun hc ↦ h (hc ▸ List.mem_cons_self)
      have hl : '\n' ∉ l := fun hm ↦ h (List.mem_cons_of_mem c hm)
      cases l with
      | nil =>
          by_cases hr : c = '\r'
          · subst hr
            rw [List.cons_append, List.nil_append, lines]
            rfl
          · rw [List.cons_append, lines_cons hc (fun h ↦ absurd h hr), ih hl]
            simp [dropReturn, consHead, hr]
      | cons d l =>
          have hd : d ≠ '\n' := fun hd ↦ hl (hd ▸ List.mem_cons_self)
          rw [List.cons_append, lines_cons hc (by simp [hd]), ih hl, dropReturn_cons_cons]
          rfl

theorem lines_append_crlf (h : '\n' ∉ l) : lines (l ++ '\r' :: '\n' :: r) = l :: lines r := by
  have := lines_append_lf (l := l ++ ['\r']) (r := r) (by simp [h])
  simpa using this

theorem newline_not_mem_of_mem_lines (h : l ∈ lines t) : '\n' ∉ l := by
  fun_induction lines t generalizing l with
  | case1 => simp_all
  | case2 r ih =>
      rcases List.mem_cons.mp h with rfl | h
      · simp
      · exact ih h
  | case3 r ih =>
      rcases List.mem_cons.mp h with rfl | h
      · simp
      · exact ih h
  | case4 c r _ hc ih =>
      obtain ⟨p, ps, hps⟩ := List.exists_cons_of_ne_nil (lines_ne_nil r)
      rw [hps] at h ih
      rcases List.mem_cons.mp h with rfl | h
      · have := ih List.mem_cons_self
        simp_all [eq_comm]
      · exact ih (List.mem_cons_of_mem p h)

/-! ## Splitting at a character -/

theorem splitOn_append_cons {sep : Char} (h : sep ∉ l) :
    splitOn sep (l ++ sep :: r) = l :: splitOn sep r := by
  induction l with
  | nil => rw [List.nil_append, splitOn, if_pos rfl]
  | cons c l ih =>
      have hc : c ≠ sep := fun hc ↦ h (hc ▸ List.mem_cons_self)
      rw [List.cons_append, splitOn, if_neg hc, ih fun hm ↦ h (List.mem_cons_of_mem c hm), consHead]

theorem splitOn_of_not_mem {sep : Char} (h : sep ∉ l) : splitOn sep l = [l] := by
  induction l with
  | nil => rfl
  | cons c l ih =>
      have hc : c ≠ sep := fun hc ↦ h (hc ▸ List.mem_cons_self)
      rw [splitOn, if_neg hc, ih fun hm ↦ h (List.mem_cons_of_mem c hm), consHead]

/-- Parts without the separator are found again. -/
theorem splitOn_joinWith {sep : Char} {ts : List Text} (hne : ts ≠ []) (h : ∀ t ∈ ts, sep ∉ t) :
    splitOn sep (joinWith [sep] ts) = ts := by
  induction ts with
  | nil => exact absurd rfl hne
  | cons t ts ih =>
      obtain ⟨ht, hts⟩ := List.forall_mem_cons.mp h
      cases ts with
      | nil => exact splitOn_of_not_mem ht
      | cons u ts =>
          rw [joinWith_cons_cons, List.append_assoc, List.singleton_append, splitOn_append_cons ht,
            ih (List.cons_ne_nil u ts) hts]

/-! ## Counting line endings -/

theorem crlfCount_append_crlf (h : '\n' ∉ l) :
    crlfCount (l ++ '\r' :: '\n' :: r) = crlfCount r + 1 := by
  induction l with
  | nil => rfl
  | cons c l ih =>
      have hl : '\n' ∉ l := fun hm ↦ h (List.mem_cons_of_mem c hm)
      rw [List.cons_append, crlfCount, ih hl]
      rintro r' - hr'
      cases l with
      | nil => simp at hr'
      | cons d l => exact hl ((List.cons.inj hr').1 ▸ List.mem_cons_self)

theorem loneLfCount_append_crlf (h : '\n' ∉ l) :
    loneLfCount (l ++ '\r' :: '\n' :: r) = loneLfCount r := by
  induction l with
  | nil => rfl
  | cons c l ih =>
      have hl : '\n' ∉ l := fun hm ↦ h (List.mem_cons_of_mem c hm)
      rw [List.cons_append, loneLfCount, ih hl]
      · rintro r' - hr'
        cases l with
        | nil => simp at hr'
        | cons d l => exact hl ((List.cons.inj hr').1 ▸ List.mem_cons_self)
      · rintro rfl
        exact h List.mem_cons_self

theorem crlfCount_append_lf (h : '\n' ∉ l) (hl : l.getLast? ≠ some '\r') :
    crlfCount (l ++ '\n' :: r) = crlfCount r := by
  induction l with
  | nil => rw [List.nil_append, crlfCount]; simp
  | cons c l ih =>
      have hm : '\n' ∉ l := fun hm ↦ h (List.mem_cons_of_mem c hm)
      cases l with
      | nil =>
          rw [List.cons_append, crlfCount, ih hm (by simp)]
          rintro r' rfl -
          exact hl rfl
      | cons d l =>
          rw [List.cons_append, crlfCount, ih hm (by simpa using hl)]
          rintro r' - hr'
          exact hm ((List.cons.inj hr').1 ▸ List.mem_cons_self)

end Text

/-- Whether every carriage return of a text stands directly before a line feed. -/
def Text.ReturnsEndLines (t : Text) : Prop :=
  ∀ a b : Text, t = a ++ '\r' :: b → b.head? = some '\n'

namespace Text

variable {t l r : Text} {c : Char}

theorem returnsEndLines_of_not_mem (h : '\r' ∉ t) : ReturnsEndLines t := by
  rintro a b rfl
  simp at h

theorem ReturnsEndLines.tail (h : ReturnsEndLines (c :: r)) : ReturnsEndLines r :=
  fun a b hr ↦ h (c :: a) b (by rw [hr]; rfl)

/-- Then no line holds a carriage return of its own. -/
theorem ReturnsEndLines.not_mem (h : ReturnsEndLines t) (hl : l ∈ lines t) : '\r' ∉ l := by
  fun_induction lines t generalizing l with
  | case1 => simp_all
  | case2 r ih =>
      rcases List.mem_cons.mp hl with rfl | hl
      · simp
      · exact ih h.tail.tail hl
  | case3 r ih =>
      rcases List.mem_cons.mp hl with rfl | hl
      · simp
      · exact ih h.tail hl
  | case4 c r hcr _ ih =>
      obtain ⟨p, ps, hps⟩ := List.exists_cons_of_ne_nil (lines_ne_nil r)
      rw [hps] at hl ih
      rcases List.mem_cons.mp hl with rfl | hl
      · have hc : c ≠ '\r' := by
          rintro rfl
          obtain ⟨r', hr'⟩ := List.head?_eq_some_iff.mp (h [] r rfl)
          exact hcr r' rfl hr'
        have := ih h.tail List.mem_cons_self
        simp_all [eq_comm]
      · exact ih h.tail (List.mem_cons_of_mem p hl)

end Text

namespace LineEnding

variable {e : LineEnding} {ls : List Text}

theorem joinLines_eq_flatMap (e : LineEnding) (ls : List Text) :
    e.joinLines ls = ls.flatMap (· ++ e.text) := by
  induction ls with
  | nil => rfl
  | cons l ls ih =>
      cases ls with
      | nil => simp [joinLines]
      | cons m ls =>
          rw [List.flatMap_cons, ← ih]
          simp [joinLines]

theorem joinLines_eq_nil_iff : e.joinLines ls = [] ↔ ls = [] := by
  cases ls with
  | nil => exact iff_of_true rfl rfl
  | cons l ls =>
      rw [joinLines_eq_flatMap, List.flatMap_cons]
      cases e <;> simp [text]

/-- A printed line as the next reading finds it. -/
def reread : LineEnding → Text → Text
  | .lf => Text.dropReturn
  | .crlf => id

@[simp] theorem reread_nil (e : LineEnding) : e.reread [] = [] := by cases e <;> rfl

theorem reread_of_ne {l : Text} (h : l.getLast? ≠ some '\r') : e.reread l = l := by
  cases e with
  | lf => exact Text.dropReturn_of_ne h
  | crlf => rfl

theorem reread_isPrefix (e : LineEnding) (l : Text) : e.reread l <+: l := by
  cases e with
  | lf => exact Text.dropReturn_isPrefix l
  | crlf => exact List.prefix_rfl

/-- Joined lines are cut where they were joined, and an empty line follows the last ending. -/
theorem lines_joinLines (h : ∀ l ∈ ls, '\n' ∉ l) :
    Text.lines (e.joinLines ls) = ls.map e.reread ++ [[]] := by
  rw [joinLines_eq_flatMap]
  induction ls with
  | nil => rfl
  | cons l ls ih =>
      have hl : '\n' ∉ l := h l List.mem_cons_self
      have hls : ∀ m ∈ ls, '\n' ∉ m := fun m hm ↦ h m (List.mem_cons_of_mem l hm)
      rw [List.flatMap_cons, List.map_cons, List.cons_append, ← ih hls, List.append_assoc]
      cases e with
      | lf => exact Text.lines_append_lf hl
      | crlf => exact Text.lines_append_crlf hl

/-- Lines joined with CRLF make a text in which CRLF prevails. -/
theorem prevailing_joinLines_crlf (h : ∀ l ∈ ls, '\n' ∉ l) (hne : ls ≠ []) :
    prevailing (joinLines .crlf ls) = .crlf := by
  have hcounts : Text.crlfCount (joinLines .crlf ls) = ls.length ∧
      Text.loneLfCount (joinLines .crlf ls) = 0 := by
    rw [joinLines_eq_flatMap]
    clear hne
    induction ls with
    | nil => exact ⟨rfl, rfl⟩
    | cons l ls ih =>
        have hl : '\n' ∉ l := h l List.mem_cons_self
        obtain ⟨hcrlf, hlf⟩ := ih fun m hm ↦ h m (List.mem_cons_of_mem l hm)
        rw [List.flatMap_cons, List.append_assoc]
        exact ⟨(Text.crlfCount_append_crlf hl).trans (congrArg (· + 1) hcrlf),
          (Text.loneLfCount_append_crlf hl).trans hlf⟩
  rw [prevailing, hcounts.1, hcounts.2, if_pos (List.length_pos_iff.mpr hne)]

/-- Lines without returns of their own, joined with line feeds, make a text without CRLF. -/
theorem prevailing_joinLines_lf (h : ∀ l ∈ ls, '\n' ∉ l) (hr : ∀ l ∈ ls, l.getLast? ≠ some '\r') :
    prevailing (joinLines .lf ls) = .lf := by
  have hcount : Text.crlfCount (joinLines .lf ls) = 0 := by
    rw [joinLines_eq_flatMap]
    induction ls with
    | nil => rfl
    | cons l ls ih =>
        rw [List.flatMap_cons, List.append_assoc]
        exact (Text.crlfCount_append_lf (h l List.mem_cons_self) (hr l List.mem_cons_self)).trans
          (ih (fun m hm ↦ h m (List.mem_cons_of_mem l hm)) fun m hm ↦ hr m (List.mem_cons_of_mem l hm))
  rw [prevailing, hcount, if_neg (Nat.not_lt_zero _)]

/-- Lines that end in carriage returns, joined with line feeds, are the lines before the returns
joined with CRLF. -/
theorem joinLines_lf_map_return (ls : List Text) :
    joinLines .lf (ls.map (· ++ ['\r'])) = joinLines .crlf ls := by
  simp only [joinLines_eq_flatMap, List.flatMap_map, text, List.append_assoc, List.cons_append,
    List.nil_append]

theorem splitOn_joinLines_lf (h : ∀ l ∈ ls, '\n' ∉ l) :
    Text.splitOn '\n' (joinLines .lf ls) = ls ++ [[]] := by
  rw [joinLines_eq_flatMap]
  induction ls with
  | nil => rfl
  | cons l ls ih =>
      rw [List.flatMap_cons, List.append_assoc, List.cons_append,
        ← ih fun m hm ↦ h m (List.mem_cons_of_mem l hm)]
      exact Text.splitOn_append_cons (h l List.mem_cons_self)

/-- The lines that were joined can be told from the text and the ending. -/
theorem joinLines_injective {ms : List Text} (hl : ∀ l ∈ ls, '\n' ∉ l) (hm : ∀ l ∈ ms, '\n' ∉ l)
    (h : e.joinLines ls = e.joinLines ms) : ls = ms := by
  cases e with
  | lf =>
      have := congrArg (Text.splitOn '\n') h
      rw [splitOn_joinLines_lf hl, splitOn_joinLines_lf hm] at this
      exact List.append_cancel_right this
  | crlf =>
      have := congrArg Text.lines h
      rw [lines_joinLines hl, lines_joinLines hm] at this
      simpa [reread] using this

end LineEnding

end Saltern
