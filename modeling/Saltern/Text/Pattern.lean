import Saltern.Text.Basic

/-!
# Regular patterns

A pattern denotes a set of texts; a text is matched by taking one character at a time off the
pattern. Alternatives and sequences drop their impossible parts on the way, which keeps the pattern
small.
-/

namespace Saltern

/-- A regular pattern over classes of characters. -/
inductive Pattern
  | never
  | empty
  | one (p : Char → Bool)
  | seq (a b : Pattern)
  | alt (a b : Pattern)
  | star (a : Pattern)

namespace Pattern

/-- The texts a pattern stands for. -/
inductive Matches : Pattern → Text → Prop
  | empty : Matches .empty []
  | one {p : Char → Bool} {c : Char} (h : p c = true) : Matches (.one p) [c]
  | seq {a b : Pattern} {s t : Text} (ha : Matches a s) (hb : Matches b t) :
      Matches (.seq a b) (s ++ t)
  | altLeft {a b : Pattern} {s : Text} (h : Matches a s) : Matches (.alt a b) s
  | altRight {a b : Pattern} {s : Text} (h : Matches b s) : Matches (.alt a b) s
  | starNil {a : Pattern} : Matches (.star a) []
  | starAppend {a : Pattern} {s t : Text} (ha : Matches a s) (hs : Matches (.star a) t) :
      Matches (.star a) (s ++ t)

/-- One given character. -/
def char (c : Char) : Pattern := .one (· == c)

/-- Any of some characters. -/
def anyOf (cs : Text) : Pattern := .one cs.contains

/-- A given text. -/
def literal : Text → Pattern
  | [] => .empty
  | c :: r => .seq (char c) (literal r)

def opt (a : Pattern) : Pattern := .alt .empty a

def plus (a : Pattern) : Pattern := .seq a (.star a)

/-- One of several patterns. -/
def choice : List Pattern → Pattern
  | [] => .never
  | [a] => a
  | a :: b :: r => .alt a (choice (b :: r))

/-- Several patterns one after the other. -/
def chain : List Pattern → Pattern
  | [] => .empty
  | [a] => a
  | a :: b :: r => .seq a (chain (b :: r))

/-- Whether a pattern matches the empty text. -/
def matchesNil : Pattern → Bool
  | .never => false
  | .empty => true
  | .one _ => false
  | .seq a b => a.matchesNil && b.matchesNil
  | .alt a b => a.matchesNil || b.matchesNil
  | .star _ => true

/-- A sequence, or what it comes to when one part is trivial. -/
def smartSeq : Pattern → Pattern → Pattern
  | .never, _ => .never
  | .empty, b => b
  | a, b => .seq a b

/-- An alternative, or the other part when one is impossible. -/
def smartAlt : Pattern → Pattern → Pattern
  | .never, b => b
  | a, .never => a
  | a, b => .alt a b

/-- The pattern left to match after a character. -/
def after (c : Char) : Pattern → Pattern
  | .never => .never
  | .empty => .never
  | .one p => if p c then .empty else .never
  | .seq a b =>
    if a.matchesNil then smartAlt (smartSeq (a.after c) b) (b.after c) else smartSeq (a.after c) b
  | .alt a b => smartAlt (a.after c) (b.after c)
  | .star a => smartSeq (a.after c) (.star a)

/-- Whether a pattern matches the whole of a text. -/
def accepts (a : Pattern) : Text → Bool
  | [] => a.matchesNil
  | c :: r => (a.after c).accepts r

theorem matches_seq_iff {a b : Pattern} {t : Text} :
    Matches (.seq a b) t ↔ ∃ u v, Matches a u ∧ Matches b v ∧ t = u ++ v := by
  constructor
  · intro h
    cases h with
    | seq ha hb => exact ⟨_, _, ha, hb, rfl⟩
  · rintro ⟨u, v, ha, hb, rfl⟩
    exact .seq ha hb

theorem matches_alt_iff {a b : Pattern} {t : Text} :
    Matches (.alt a b) t ↔ Matches a t ∨ Matches b t := by
  constructor
  · intro h
    cases h with
    | altLeft h => exact .inl h
    | altRight h => exact .inr h
  · rintro (h | h)
    · exact .altLeft h
    · exact .altRight h

@[simp] theorem not_matches_never {t : Text} : ¬ Matches .never t := nofun

@[simp] theorem matches_empty_iff {t : Text} : Matches .empty t ↔ t = [] :=
  ⟨fun h ↦ by cases h; rfl, fun h ↦ h ▸ .empty⟩

theorem matches_one_iff {p : Char → Bool} {t : Text} :
    Matches (.one p) t ↔ ∃ c, p c = true ∧ t = [c] := by
  constructor
  · intro h
    cases h with
    | one hc => exact ⟨_, hc, rfl⟩
  · rintro ⟨c, hc, rfl⟩
    exact .one hc

theorem matchesNil_iff {a : Pattern} : a.matchesNil = true ↔ Matches a [] := by
  induction a with
  | never => simp [matchesNil]
  | empty => simp [matchesNil]
  | one p => simp [matchesNil, matches_one_iff]
  | seq a b iha ihb =>
    simp only [matchesNil, Bool.and_eq_true, iha, ihb, matches_seq_iff]
    constructor
    · rintro ⟨ha, hb⟩
      exact ⟨[], [], ha, hb, rfl⟩
    · rintro ⟨u, v, ha, hb, h⟩
      obtain ⟨rfl, rfl⟩ := List.append_eq_nil_iff.mp h.symm
      exact ⟨ha, hb⟩
  | alt a b iha ihb => simp [matchesNil, matches_alt_iff, iha, ihb]
  | star a _ => exact ⟨fun _ ↦ .starNil, fun _ ↦ rfl⟩

theorem matches_smartSeq_iff {a b : Pattern} {t : Text} :
    Matches (smartSeq a b) t ↔ Matches (.seq a b) t := by
  unfold smartSeq
  split
  · simp [matches_seq_iff]
  · simp [matches_seq_iff]
  · rfl

theorem matches_smartAlt_iff {a b : Pattern} {t : Text} :
    Matches (smartAlt a b) t ↔ Matches (.alt a b) t := by
  unfold smartAlt
  split
  · simp [matches_alt_iff]
  · simp [matches_alt_iff]
  · rfl

/-- The first part of a repetition of a non-empty text can be taken non-empty. -/
theorem matches_star_cons {a : Pattern} {c : Char} {t : Text} (h : Matches (.star a) (c :: t)) :
    ∃ u v, Matches a (c :: u) ∧ Matches (.star a) v ∧ t = u ++ v := by
  generalize hb : Pattern.star a = b at h
  generalize hs : c :: t = s at h
  induction h with
  | starNil => cases hs
  | @starAppend a' s' t' ha hstar _ ih =>
    cases hb
    cases s' with
    | nil => exact ih rfl hs
    | cons d s'' =>
      simp only [List.cons_append, List.cons.injEq] at hs
      obtain ⟨rfl, rfl⟩ := hs
      exact ⟨s'', t', ha, hstar, rfl⟩
  | _ => cases hb

theorem matches_after_iff {c : Char} {a : Pattern} {t : Text} :
    Matches (a.after c) t ↔ Matches a (c :: t) := by
  induction a generalizing t with
  | never => simp [after]
  | empty => simp [after]
  | one p =>
    rw [after, matches_one_iff]
    constructor
    · intro h
      split at h
      · next hc => exact ⟨c, hc, by rw [matches_empty_iff.mp h]⟩
      · exact absurd h not_matches_never
    · rintro ⟨d, hd, h⟩
      obtain ⟨rfl, rfl⟩ := List.cons.inj h
      simp [hd]
  | seq a b iha ihb =>
    have hseq : Matches (.seq a b) (c :: t) ↔
        (∃ u v, Matches a (c :: u) ∧ Matches b v ∧ t = u ++ v) ∨
          (Matches a [] ∧ Matches b (c :: t)) := by
      rw [matches_seq_iff]
      constructor
      · rintro ⟨u, v, ha, hb, h⟩
        cases u with
        | nil => exact .inr ⟨ha, h ▸ hb⟩
        | cons d u =>
          simp only [List.cons_append, List.cons.injEq] at h
          obtain ⟨rfl, rfl⟩ := h
          exact .inl ⟨u, v, ha, hb, rfl⟩
      · rintro (⟨u, v, ha, hb, rfl⟩ | ⟨ha, hb⟩)
        · exact ⟨c :: u, v, ha, hb, rfl⟩
        · exact ⟨[], c :: t, ha, hb, rfl⟩
    have hfirst : Matches (smartSeq (a.after c) b) t ↔
        ∃ u v, Matches a (c :: u) ∧ Matches b v ∧ t = u ++ v := by
      simp only [matches_smartSeq_iff, matches_seq_iff, iha]
    rw [hseq, after]
    by_cases hn : a.matchesNil = true
    · rw [if_pos hn, matches_smartAlt_iff, matches_alt_iff, hfirst, ihb]
      simp [matchesNil_iff.mp hn]
    · have hno : ¬ Matches a [] := fun h ↦ hn (matchesNil_iff.mpr h)
      rw [if_neg hn, hfirst]
      simp [hno]
  | alt a b iha ihb => simp only [after, matches_smartAlt_iff, matches_alt_iff, iha, ihb]
  | star a iha =>
    rw [after, matches_smartSeq_iff, matches_seq_iff]
    constructor
    · rintro ⟨u, v, ha, hs, rfl⟩
      exact .starAppend (s := c :: u) (iha.mp ha) hs
    · intro h
      obtain ⟨u, v, ha, hs, rfl⟩ := matches_star_cons h
      exact ⟨u, v, iha.mpr ha, hs, rfl⟩

/-- A pattern accepts exactly the texts it stands for. -/
theorem accepts_iff {a : Pattern} {t : Text} : a.accepts t = true ↔ Matches a t := by
  induction t generalizing a with
  | nil => exact matchesNil_iff
  | cons c r ih => rw [accepts, ih, matches_after_iff]

end Pattern

end Saltern
