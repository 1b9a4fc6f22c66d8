import Saltern.Proofs.Text.Runs
import Saltern.Proofs.Text.Words

/-!
# The words of a text

All words of a text in order, and what stands from one of them on. The first words of a trimmed text are found
exactly where one more word stands behind them.
-/

namespace Saltern.Text

variable {p : Char → Bool} {t u w g r : Text} {ws : List Text} {c : Char} {n : Nat}

/-! ## Words -/

/-- The words of a text, in order. -/
def words (t : Text) : List Text := runs (!isBlank ·) t

/-- A text from one of its words on, the words counted from zero. -/
def fromWord : Nat → Text → Text
  | 0, t => t.dropWhile isBlank
  | n + 1, t => fromWord n ((t.dropWhile isBlank).dropWhile (!isBlank ·))

theorem isWord_of_mem_words (h : w ∈ words t) : IsWord w :=
  ⟨ne_nil_of_mem_runs h, fun c hc ↦ by simpa using forall_mem_runs h c hc⟩

theorem fromWord_isSuffix (n : Nat) (t : Text) : fromWord n t <:+ t := by
  induction n generalizing t with
  | zero => exact List.dropWhile_suffix _
  | succ n ih => exact (ih _).trans ((List.dropWhile_suffix _).trans (List.dropWhile_suffix _))

theorem head?_fromWord (n : Nat) (t : Text) : ∀ c ∈ (fromWord n t).head?, isBlank c = false := by
  induction n generalizing t with
  | zero => exact fun c hc ↦ not_of_mem_head?_dropWhile hc
  | succ n ih => exact ih _

theorem isTrimmed_fromWord (ht : IsTrimmed t) (n : Nat) : IsTrimmed (fromWord n t) := by
  refine ⟨head?_fromWord n t, fun c hc ↦ ht.2 c ?_⟩
  obtain ⟨front, hfront⟩ := fromWord_isSuffix n t
  have hne : fromWord n t ≠ [] := by
    rintro h
    simp [h] at hc
  rwa [← hfront, List.getLast?_append_of_ne_nil _ hne]

theorem words_append_of_gap (h : ∀ c ∈ u, isBlank c = true) (t : Text) : words (u ++ t) = words t :=
  runs_append_of_neg (fun c hc ↦ by rw [h c hc, Bool.not_true]) t

theorem words_word (hw : IsWord w) (hu : ∀ c ∈ u.head?, isBlank c = true) : words (w ++ u) = w :: words u :=
  runs_append hw.1 (fun c hc ↦ by rw [hw.2 c hc, Bool.not_false]) fun c hc ↦ by rw [hu c hc, Bool.not_true]

theorem fromWord_append_of_gap (h : ∀ c ∈ u, isBlank c = true) (n : Nat) (t : Text) :
    fromWord n (u ++ t) = fromWord n t := by
  cases n <;> rw [fromWord, fromWord, List.dropWhile_append_of_pos h]

theorem words_dropWhile_isBlank (t : Text) : words (t.dropWhile isBlank) = words t := by
  rw [← words_append_of_gap (fun c hc ↦ List.mem_takeWhile_imp hc) (t.dropWhile isBlank),
    List.takeWhile_append_dropWhile]

theorem words_dropWhile_word (ht : ∀ c ∈ t.head?, isBlank c = false) :
    words (t.dropWhile (!isBlank ·)) = (words t).tail := by
  obtain rfl | hne := eq_or_ne t []
  · rfl
  obtain ⟨c, u, rfl⟩ := List.exists_cons_of_ne_nil hne
  have hword : IsWord ((c :: u).takeWhile (!isBlank ·)) :=
    ⟨by simp [ht c rfl], fun d hd ↦ by simpa using List.mem_takeWhile_imp hd⟩
  have hrest : ∀ d ∈ ((c :: u).dropWhile (!isBlank ·)).head?, isBlank d = true := by
    intro d hd
    simpa using not_of_mem_head?_dropWhile hd
  conv => rhs; rw [← List.takeWhile_append_dropWhile (p := (!isBlank ·)) (l := c :: u), words_word hword hrest]
  rfl

/-- From one of its words on, a text has the words from that one on. -/
theorem words_fromWord (n : Nat) (t : Text) : words (fromWord n t) = (words t).drop n := by
  induction n generalizing t with
  | zero => rw [fromWord, words_dropWhile_isBlank, List.drop_zero]
  | succ n ih =>
      have hhead : ∀ c ∈ (t.dropWhile isBlank).head?, isBlank c = false := head?_fromWord 0 t
      rw [fromWord, ih, words_dropWhile_word hhead, words_dropWhile_isBlank, List.drop_tail]

theorem fromWord_ne_nil (h : n < (words t).length) : fromWord n t ≠ [] := by
  intro hnil
  have hdrop := words_fromWord n t
  rw [hnil] at hdrop
  exact absurd (List.drop_eq_nil_iff.mp hdrop.symm) (by omega)

theorem IsGap.head? (h : IsGap g) (u : Text) : ∀ c ∈ (g ++ u).head?, isBlank c = true := by
  obtain ⟨b, v, rfl⟩ := List.exists_cons_of_ne_nil h.1
  rintro c ⟨rfl⟩
  exact h.2 b List.mem_cons_self

theorem fromWord_succ_word (hw : IsWord w) (hg : IsGap g) (n : Nat) (u : Text) :
    fromWord (n + 1) (w ++ (g ++ u)) = fromWord n u := by
  have hword : ∀ c ∈ w, (!isBlank c) = true := fun c hc ↦ by rw [hw.2 c hc, Bool.not_false]
  obtain ⟨b, v, rfl⟩ := List.exists_cons_of_ne_nil hg.1
  have hb : (!isBlank b) = false := by rw [hg.2 b List.mem_cons_self, Bool.not_true]
  rw [fromWord, dropWhile_isBlank_of_head? (hw.head? _), List.dropWhile_append_of_pos hword, List.cons_append,
    List.dropWhile_cons_of_neg (by rw [hb]; decide), ← List.cons_append, fromWord_append_of_gap hg.2]

/-- Behind the first word stand the other words. -/
theorem words_of_firstWord (h : firstWord t = some (w, r)) :
    words t = w :: words r ∧ ∀ n, fromWord (n + 1) t = fromWord n r := by
  obtain ⟨g, hw, hg, rfl, -⟩ := exists_of_firstWord h
  rw [List.append_assoc]
  exact ⟨by rw [words_word hw (hg.head? r), words_append_of_gap hg.2], fun n ↦ fromWord_succ_word hw hg n r⟩

/-- A trimmed text has a first word with more behind it, or is a word. -/
theorem firstWord_cases (ht : IsTrimmed t) (hne : t ≠ []) :
    (∃ w r, firstWord t = some (w, r) ∧ IsTrimmed r ∧ r ≠ []) ∨ firstWord t = none ∧ IsWord t := by
  cases hf : firstWord t with
  | some x =>
      obtain ⟨w, r⟩ := x
      obtain ⟨g, -, hg, rfl, hr⟩ := exists_of_firstWord hf
      have hrest : r ≠ [] := ne_nil_of_gap ht hg
      exact .inl ⟨w, r, rfl, ⟨hr, fun c hc ↦ ht.2 c (by rwa [List.getLast?_append_of_ne_nil _ hrest])⟩, hrest⟩
  | none =>
      refine .inr ⟨rfl, hne, fun d hd ↦ ?_⟩
      obtain ⟨c, u, rfl⟩ := List.exists_cons_of_ne_nil hne
      have hstart : ((c :: u).takeWhile (!isBlank ·)).isEmpty = false := by simp [ht.1 c rfl]
      have hrest : (c :: u).dropWhile (!isBlank ·) = [] := by
        by_contra hrest
        rw [firstWord, hstart, Bool.false_or, if_neg (by simpa using hrest)] at hf
        cases hf
      simpa using List.dropWhile_eq_nil_iff.mp hrest d hd

theorem words_of_isWord (hw : IsWord w) : words w = [w] := by
  have h := words_word (u := []) hw fun _ h ↦ by cases h
  rwa [List.append_nil] at h

theorem words_ne_nil (ht : IsTrimmed t) (hne : t ≠ []) : words t ≠ [] := by
  obtain ⟨w, r, hf, -, -⟩ | ⟨-, hw⟩ := firstWord_cases ht hne
  · rw [(words_of_firstWord hf).1]
    exact List.cons_ne_nil w _
  · rw [words_of_isWord hw]
    exact List.cons_ne_nil t []

/-- A trimmed text begins with its first word. -/
theorem head?_of_head?_words (ht : IsTrimmed t) (hw : (words t).head? = some w) : t.head? = w.head? := by
  obtain rfl | hne := eq_or_ne t []
  · cases hw
  obtain ⟨v, r, hf, -, -⟩ | ⟨-, hword⟩ := firstWord_cases ht hne
  · rw [(words_of_firstWord hf).1] at hw
    obtain rfl : v = w := Option.some.inj hw
    obtain ⟨g, hv, -, rfl, -⟩ := exists_of_firstWord hf
    rw [List.append_assoc, List.head?_append_of_ne_nil v hv.1]
  · rw [words_of_isWord hword] at hw
    obtain rfl : t = w := Option.some.inj hw
    rfl

theorem firstWords_eq (ht : IsTrimmed t) (hne : t ≠ []) (n : Nat) :
    firstWords n t = if n < (words t).length then some ((words t).take n, fromWord n t) else none := by
  induction n generalizing t with
  | zero =>
      rw [if_pos (List.length_pos_iff.mpr (words_ne_nil ht hne)), fromWord, dropWhile_isBlank_of_head? ht.1]
      rfl
  | succ n ih =>
      obtain ⟨w, r, hf, hr, hrest⟩ | ⟨hf, hw⟩ := firstWord_cases ht hne
      · obtain ⟨hwords, hfrom⟩ := words_of_firstWord hf
        rw [firstWords_of_firstWord hf, ih hr hrest, hwords, hfrom, List.length_cons, List.take_succ_cons]
        by_cases h : n < (words r).length
        · rw [if_pos h, if_pos (by omega), Option.map_some]
        · rw [if_neg h, if_neg (by omega), Option.map_none]
      · rw [firstWords, hf, words_of_isWord hw, if_neg (by simp)]
        rfl

/-- The first words of a trimmed text are found exactly where one more word stands behind them. -/
theorem firstWords_eq_some_iff (ht : IsTrimmed t) :
    firstWords (n + 1) t = some (ws, r) ↔
      n + 1 < (words t).length ∧ (words t).take (n + 1) = ws ∧ fromWord (n + 1) t = r := by
  by_cases hne : t = []
  · subst hne
    simp [firstWords, firstWord, words, runs]
  · rw [firstWords_eq ht hne]
    by_cases h : n + 1 < (words t).length
    · rw [if_pos h, Option.some.injEq, Prod.mk.injEq, and_iff_right h]
    · rw [if_neg h]
      exact iff_of_false (Option.some_ne_none _).symm fun h' ↦ h h'.1

theorem firstWords_one_eq_some_iff : firstWords 1 t = some ([w], r) ↔ firstWord t = some (w, r) := by
  rw [firstWords_cons_eq_some_iff]
  simp [firstWords]

theorem firstWord_eq_some_iff (ht : IsTrimmed t) :
    firstWord t = some (w, r) ↔ 1 < (words t).length ∧ (words t).head? = some w ∧ fromWord 1 t = r := by
  rw [← firstWords_one_eq_some_iff, firstWords_eq_some_iff ht]
  refine and_congr_right fun h ↦ and_congr_left fun _ ↦ ?_
  obtain ⟨v, ws, hws⟩ := List.exists_cons_of_ne_nil (List.ne_nil_of_length_pos (Nat.zero_lt_of_lt h))
  simp [hws]

end Saltern.Text
