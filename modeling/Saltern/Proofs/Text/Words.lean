import Saltern.Proofs.Text.Edges
import Saltern.Proofs.Text.Lines

/-!
# Words

A text is cut into words at its blanks. Cutting finds the words that the text was put together from.
-/

namespace Saltern.Text

variable {t u w g r : Text} {c : Char} {fields : List (Text × Text)} {ws : List Text} {n : Nat}

/-! ## Words -/

/-- One or more characters, none of them blank. -/
def IsWord (t : Text) : Prop := t ≠ [] ∧ ∀ c ∈ t, isBlank c = false

/-- One or more blanks. -/
def IsGap (t : Text) : Prop := t ≠ [] ∧ ∀ c ∈ t, isBlank c = true

theorem IsWord.head? (h : IsWord w) (u : Text) : ∀ c ∈ (w ++ u).head?, isBlank c = false := by
  obtain ⟨d, v, rfl⟩ := List.exists_cons_of_ne_nil h.1
  rintro c ⟨rfl⟩
  exact h.2 d List.mem_cons_self

theorem dropWhile_isBlank_of_head? (h : ∀ c ∈ t.head?, isBlank c = false) : t.dropWhile isBlank = t := by
  cases t with
  | nil => rfl
  | cons c t => rw [List.dropWhile_cons_of_neg (by simp [h c rfl])]

theorem dropWhile_isBlank_gap (hg : IsGap g) (u : Text) : (g ++ u).dropWhile isBlank = u.dropWhile isBlank :=
  List.dropWhile_append_of_pos hg.2

/-- The first word is what stands before the first gap, the rest what stands behind it. -/
theorem firstWord_append (hw : IsWord w) (hg : IsGap g) (u : Text) :
    firstWord (w ++ g ++ u) = some (w, u.dropWhile isBlank) := by
  obtain ⟨b, v, rfl⟩ := List.exists_cons_of_ne_nil hg.1
  have hb : (!isBlank b) = false := by rw [hg.2 b List.mem_cons_self, Bool.not_true]
  have hword : ∀ c ∈ w, (!isBlank c) = true := fun c hc ↦ by rw [hw.2 c hc, Bool.not_false]
  have htake : (w ++ (b :: v) ++ u).takeWhile (!isBlank ·) = w := by
    rw [List.append_assoc, List.takeWhile_append_of_pos hword, List.cons_append, List.takeWhile_cons,
      hb, if_neg (by decide), List.append_nil]
  have hdrop : (w ++ (b :: v) ++ u).dropWhile (!isBlank ·) = (b :: v) ++ u := by
    rw [List.append_assoc, List.dropWhile_append_of_pos hword, List.cons_append, List.dropWhile_cons,
      hb, if_neg (by decide)]
  rw [firstWord, htake, hdrop, dropWhile_isBlank_gap hg]
  simp [hw.1]

/-- Only a word before a gap is a first word. -/
theorem exists_of_firstWord (h : firstWord t = some (w, r)) :
    ∃ g, IsWord w ∧ IsGap g ∧ t = w ++ g ++ r ∧ ∀ c ∈ r.head?, isBlank c = false := by
  have hcut := List.takeWhile_append_dropWhile (p := (!isBlank ·)) (l := t)
  have hgap := List.takeWhile_append_dropWhile (p := isBlank) (l := t.dropWhile (!isBlank ·))
  have hstop := List.head?_dropWhile_not (!isBlank ·) t
  rw [firstWord] at h
  split at h
  · cases h
  · next hne =>
    cases h
    simp only [Bool.or_eq_true, List.isEmpty_iff, not_or] at hne
    refine ⟨(t.dropWhile (!isBlank ·)).takeWhile isBlank, ⟨hne.1, fun c hc ↦ ?_⟩,
      ⟨fun hnil ↦ ?_, fun c hc ↦ ?_⟩, ?_, fun c hc ↦ ?_⟩
    · simpa using List.mem_takeWhile_imp hc
    · obtain ⟨b, v, hv⟩ := List.exists_cons_of_ne_nil hne.2
      rw [hv] at hstop hnil
      simp_all
    · exact List.mem_takeWhile_imp hc
    · rw [List.append_assoc, hgap, hcut]
    · exact not_of_mem_head?_dropWhile hc

/-- A trimmed text does not end in a gap. -/
theorem ne_nil_of_gap {front : Text} (ht : IsTrimmed (front ++ g ++ r)) (hg : IsGap g) : r ≠ [] := by
  rintro rfl
  obtain ⟨hne, hblank⟩ := hg
  have hlast : (front ++ g ++ []).getLast? = some (g.getLast hne) := by
    rw [List.append_nil, List.getLast?_append_of_ne_nil _ hne, List.getLast?_eq_some_getLast hne]
  exact absurd (hblank _ (List.getLast_mem hne)) (by rw [ht.2 _ hlast]; decide)

/-- The first words of a text, as many as asked for, and the rest behind them. -/
def firstWords : Nat → Text → Option (List Text × Text)
  | 0, t => some ([], t)
  | n + 1, t => do
    let (w, t₁) ← firstWord t
    let (ws, r) ← firstWords n t₁
    return (w :: ws, r)

theorem firstWords_of_firstWord (h : firstWord t = some (w, r)) (n : Nat) :
    firstWords (n + 1) t = (firstWords n r).map fun x ↦ (w :: x.1, x.2) := by
  rw [firstWords, h]
  cases h : firstWords n r <;> simp [h]

theorem firstWords_cons_eq_some_iff :
    firstWords (n + 1) t = some (w :: ws, r) ↔
      ∃ t₁, firstWord t = some (w, t₁) ∧ firstWords n t₁ = some (ws, r) := by
  simp only [firstWords, Option.bind_eq_bind, Option.bind_eq_some_iff, Prod.exists, Option.pure_def,
    Option.some.injEq, Prod.mk.injEq, List.cons.injEq]
  constructor
  · rintro ⟨w, t₁, h, ws, r, hs, ⟨rfl, rfl⟩, rfl⟩
    exact ⟨t₁, h, hs⟩
  · rintro ⟨t₁, h, hs⟩
    exact ⟨w, t₁, h, ws, r, hs, ⟨rfl, rfl⟩, rfl⟩

theorem length_of_firstWords (h : firstWords n t = some (ws, r)) : ws.length = n := by
  induction n generalizing t ws with
  | zero =>
      cases h
      rfl
  | succ n ih =>
      cases ws with
      | nil => simp [firstWords, Option.bind_eq_some_iff] at h
      | cons w ws =>
          obtain ⟨t₁, -, hs⟩ := firstWords_cons_eq_some_iff.mp h
          rw [List.length_cons, ih hs]

/-- Words with a gap behind each are found again. -/
theorem firstWords_append (hne : fields ≠ []) (h : ∀ f ∈ fields, IsWord f.1 ∧ IsGap f.2) (u : Text) :
    firstWords fields.length ((fields.flatMap fun f ↦ f.1 ++ f.2) ++ u) =
      some (fields.map Prod.fst, u.dropWhile isBlank) := by
  induction fields with
  | nil => exact absurd rfl hne
  | cons f fields ih =>
      obtain ⟨⟨hword, hgap⟩, hfields⟩ := List.forall_mem_cons.mp h
      rw [List.flatMap_cons, List.append_assoc, List.length_cons, List.map_cons,
        firstWords_cons_eq_some_iff]
      refine ⟨_, firstWord_append hword hgap _, ?_⟩
      cases fields with
      | nil => rfl
      | cons f' fields =>
          -- Behind the gap stands the next word, of which nothing is dropped.
          have hnext : ∀ c ∈ (((f' :: fields).flatMap fun f ↦ f.1 ++ f.2) ++ u).head?,
              isBlank c = false := by
            rw [List.flatMap_cons, List.append_assoc, List.append_assoc]
            exact (hfields f' List.mem_cons_self).1.head? _
          rw [dropWhile_isBlank_of_head? hnext]
          exact ih (List.cons_ne_nil f' fields) hfields

/-- Only words with a gap behind each are found. -/
theorem exists_of_firstWords (h : firstWords n t = some (ws, r)) :
    ∃ fields : List (Text × Text), fields.length = n ∧
      (∀ f ∈ fields, IsWord f.1 ∧ IsGap f.2) ∧ t = (fields.flatMap fun f ↦ f.1 ++ f.2) ++ r := by
  induction n generalizing t ws with
  | zero =>
      cases h
      exact ⟨[], rfl, List.forall_mem_nil _, rfl⟩
  | succ n ih =>
      obtain ⟨w, ws, rfl⟩ := List.exists_cons_of_length_eq_add_one (length_of_firstWords h)
      obtain ⟨t₁, hfirst, hs⟩ := firstWords_cons_eq_some_iff.mp h
      obtain ⟨g, hword, hgap, rfl, -⟩ := exists_of_firstWord hfirst
      obtain ⟨fields, hlength, hfields, rfl⟩ := ih hs
      refine ⟨(w, g) :: fields, by rw [List.length_cons, hlength],
        List.forall_mem_cons.mpr ⟨⟨hword, hgap⟩, hfields⟩, ?_⟩
      rw [List.flatMap_cons, List.append_assoc (w ++ g)]

end Saltern.Text
