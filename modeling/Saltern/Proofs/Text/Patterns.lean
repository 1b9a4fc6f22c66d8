import Mathlib.Data.List.Basic
import Saltern.Text.Pattern

/-!
# What patterns stand for

The texts of each way to put patterns together, and what all characters of a pattern's texts have in
common.
-/

namespace Saltern.Pattern

variable {a b : Pattern} {as : List Pattern} {p : Char → Bool} {c : Char} {cs t u v w : Text}

/-! ## Characters and literals -/

@[simp] theorem matches_char_iff : Matches (char c) t ↔ t = [c] := by
  simp [char, matches_one_iff]

@[simp] theorem matches_anyOf_iff : Matches (anyOf cs) t ↔ ∃ c ∈ cs, t = [c] := by
  simp [anyOf, matches_one_iff]

@[simp] theorem matches_literal_iff : Matches (literal w) t ↔ t = w := by
  induction w generalizing t with
  | nil => exact matches_empty_iff
  | cons c w ih =>
      rw [literal, matches_seq_iff]
      simp only [matches_char_iff, ih]
      constructor
      · rintro ⟨_, _, rfl, rfl, rfl⟩
        rfl
      · rintro rfl
        exact ⟨[c], w, rfl, rfl, rfl⟩

/-! ## Options, choices, chains -/

@[simp] theorem matches_opt_iff : Matches (opt a) t ↔ t = [] ∨ Matches a t := by
  rw [opt, matches_alt_iff, matches_empty_iff]

@[simp] theorem matches_choice_iff : Matches (choice as) t ↔ ∃ a ∈ as, Matches a t := by
  induction as with
  | nil => simp [choice]
  | cons a as ih =>
      cases as with
      | nil => simp [choice]
      | cons b as =>
          rw [choice, matches_alt_iff, ih]
          simp only [List.mem_cons, exists_eq_or_imp]

theorem matches_words_iff {ws : List Text} : Matches (choice (ws.map literal)) t ↔ t ∈ ws := by
  simp [eq_comm]

@[simp] theorem matches_chain_nil_iff : Matches (chain []) t ↔ t = [] := matches_empty_iff

@[simp] theorem matches_chain_cons_iff :
    Matches (chain (a :: as)) t ↔ ∃ u v, Matches a u ∧ Matches (chain as) v ∧ t = u ++ v := by
  cases as with
  | nil =>
      simp only [matches_chain_nil_iff]
      constructor
      · intro h
        exact ⟨t, [], h, rfl, (List.append_nil t).symm⟩
      · rintro ⟨u, _, h, rfl, rfl⟩
        rwa [List.append_nil]
  | cons b as => exact matches_seq_iff

theorem Matches.choice (ha : a ∈ as) (h : Matches a t) : Matches (choice as) t :=
  matches_choice_iff.mpr ⟨a, ha, h⟩

theorem Matches.chain_cons (hu : Matches a u) (hv : Matches (chain as) v) :
    Matches (chain (a :: as)) (u ++ v) := matches_chain_cons_iff.mpr ⟨u, v, hu, hv, rfl⟩

theorem Matches.char_cons (hv : Matches (chain as) v) : Matches (chain (char c :: as)) (c :: v) :=
  .chain_cons (matches_char_iff.mpr rfl) hv

/-! ## Repetitions -/

theorem matches_star_one_iff : Matches (.star (.one p)) t ↔ ∀ c ∈ t, p c = true := by
  induction t with
  | nil => exact iff_of_true .starNil nofun
  | cons c t ih =>
      rw [List.forall_mem_cons, ← ih]
      constructor
      · intro h
        obtain ⟨u, v, hc, hv, rfl⟩ := matches_star_cons h
        obtain ⟨d, hd, hcd⟩ := matches_one_iff.mp hc
        obtain ⟨rfl, rfl⟩ := List.cons.inj hcd
        exact ⟨hd, hv⟩
      · rintro ⟨hc, ht⟩
        exact .starAppend (.one hc) ht

/-! ## The characters of a pattern -/

/-- Whether all characters that a pattern takes satisfy a condition. -/
def Only (q : Char → Prop) : Pattern → Prop
  | .never => True
  | .empty => True
  | .one p => ∀ c, p c = true → q c
  | .seq a b => a.Only q ∧ b.Only q
  | .alt a b => a.Only q ∧ b.Only q
  | .star a => a.Only q

/-- Then so do the characters of its texts. -/
theorem Matches.forall_mem {q : Char → Prop} (h : Matches a t) (ha : a.Only q) : ∀ c ∈ t, q c := by
  induction h with
  | empty => nofun
  | one h => exact List.forall_mem_singleton.mpr (ha _ h)
  | seq _ _ ihs iht => exact List.forall_mem_append.mpr ⟨ihs ha.1, iht ha.2⟩
  | altLeft _ ih => exact ih ha.1
  | altRight _ ih => exact ih ha.2
  | starNil => nofun
  | starAppend _ _ ihs iht => exact List.forall_mem_append.mpr ⟨ihs ha, iht ha⟩

/-- Whether a pattern never takes a character. -/
def avoids (c : Char) : Pattern → Bool
  | .never => true
  | .empty => true
  | .one p => !p c
  | .seq a b => a.avoids c && b.avoids c
  | .alt a b => a.avoids c && b.avoids c
  | .star a => a.avoids c

theorem only_ne_of_avoids (h : a.avoids c = true) : a.Only (· ≠ c) := by
  induction a with
  | never => trivial
  | empty => trivial
  | one p =>
      rintro d hd rfl
      rw [avoids, hd] at h
      cases h
  | seq a b iha ihb =>
      rw [avoids, Bool.and_eq_true] at h
      exact ⟨iha h.1, ihb h.2⟩
  | alt a b iha ihb =>
      rw [avoids, Bool.and_eq_true] at h
      exact ⟨iha h.1, ihb h.2⟩
  | star a ih => exact ih h

/-- Then its texts do not hold the character. -/
theorem Matches.not_mem (h : Matches a t) (ha : a.avoids c = true) : c ∉ t :=
  fun hc ↦ h.forall_mem (only_ne_of_avoids ha) c hc rfl

end Saltern.Pattern
