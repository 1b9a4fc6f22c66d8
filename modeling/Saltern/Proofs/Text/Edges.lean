import Mathlib.Data.List.DropRight
import Saltern.Text.Blank

/-!
# Edges

Cutting off what satisfies a test at both edges of a list leaves a list that is bare at its edges,
found between two stretches that satisfy the test. Both facts together determine it, so later
proofs cut a list into these three parts and never look at how they are found. Trimming a text and
dropping the empty lines at the edges of a text's lines are two cases.
-/

namespace Saltern

section Edges

variable {α : Type} {p : α → Bool} {l m a b : List α}

/-- A list without what satisfies a test at its edges. -/
def stripEdges (p : α → Bool) (l : List α) : List α := (l.dropWhile p).rdropWhile p

/-- A list that neither begins nor ends with what satisfies a test. -/
def BareEdges (p : α → Bool) (l : List α) : Prop :=
  (∀ x ∈ l.head?, p x = false) ∧ ∀ x ∈ l.getLast?, p x = false

theorem not_of_mem_getLast?_rdropWhile {x : α} (h : x ∈ (l.rdropWhile p).getLast?) : p x = false := by
  obtain ⟨hne, rfl⟩ := List.mem_getLast?_eq_getLast h
  simpa using List.rdropWhile_last_not p l hne

theorem not_of_mem_head?_dropWhile {x : α} (h : x ∈ (l.dropWhile p).head?) : p x = false := by
  have hnot := List.head?_dropWhile_not p l
  rw [Option.mem_def.mp h] at hnot
  simpa using hnot

theorem bareEdges_stripEdges (p : α → Bool) (l : List α) : BareEdges p (stripEdges p l) := by
  refine ⟨fun x hx ↦ ?_, fun x hx ↦ not_of_mem_getLast?_rdropWhile hx⟩
  obtain ⟨s, hs⟩ := List.rdropWhile_prefix p (l.dropWhile p)
  have hhead : (l.dropWhile p).head? = some x := by
    rw [← hs, List.head?_append, show (List.rdropWhile p _).head? = some x from hx]
    rfl
  exact not_of_mem_head?_dropWhile hhead

theorem exists_rdropWhile_append (p : α → Bool) (l : List α) :
    ∃ b, l = l.rdropWhile p ++ b ∧ ∀ x ∈ b, p x = true := by
  refine ⟨(l.reverse.takeWhile p).reverse, ?_, fun x hx ↦ ?_⟩
  · rw [List.rdropWhile, ← List.reverse_append, List.takeWhile_append_dropWhile, List.reverse_reverse]
  · exact List.mem_takeWhile_imp (List.mem_reverse.mp hx)

/-- Only what satisfies the test is cut off. -/
theorem exists_eq_stripEdges (p : α → Bool) (l : List α) :
    ∃ a b, l = a ++ stripEdges p l ++ b ∧ (∀ x ∈ a, p x = true) ∧ ∀ x ∈ b, p x = true := by
  obtain ⟨b, hb, hp⟩ := exists_rdropWhile_append p (l.dropWhile p)
  refine ⟨l.takeWhile p, b, ?_, fun x ↦ List.mem_takeWhile_imp, hp⟩
  rw [stripEdges, List.append_assoc, ← hb, List.takeWhile_append_dropWhile]

/-- A list with bare edges between two stretches that satisfy the test is what cutting leaves. -/
theorem stripEdges_between (hm : BareEdges p m) (ha : ∀ x ∈ a, p x = true) (hb : ∀ x ∈ b, p x = true) :
    stripEdges p (a ++ m ++ b) = m := by
  rw [stripEdges, List.append_assoc, List.dropWhile_append_of_pos ha]
  cases m with
  | nil =>
      rw [List.nil_append, List.rdropWhile_eq_nil_iff]
      exact fun x hx ↦ hb x (List.dropWhile_subset _ hx)
  | cons y m =>
      have hfront : (y :: m ++ b).dropWhile p = y :: m ++ b := by simp [hm.1 y rfl]
      have hend : b.reverse.dropWhile p = [] := by simpa using hb
      rw [hfront, List.rdropWhile, List.reverse_append, List.dropWhile_append, hend]
      change ((y :: m).reverse.dropWhile p).reverse = _
      rw [← List.rdropWhile, List.rdropWhile_eq_self_iff]
      intro hne
      simp [hm.2 _ (List.getLast_mem_getLast? hne)]

theorem stripEdges_eq_self_iff : stripEdges p l = l ↔ BareEdges p l := by
  constructor
  · intro h
    exact h ▸ bareEdges_stripEdges p l
  · intro h
    simpa using stripEdges_between (a := []) (b := []) h nofun nofun

/-- What satisfies the test makes no difference around a list. -/
theorem stripEdges_append_append (ha : ∀ x ∈ a, p x = true) (hb : ∀ x ∈ b, p x = true) :
    stripEdges p (a ++ l ++ b) = stripEdges p l := by
  obtain ⟨u, v, hl, hu, hv⟩ := exists_eq_stripEdges p l
  have hsplit : a ++ l ++ b = (a ++ u) ++ stripEdges p l ++ (v ++ b) := by
    conv => lhs; rw [hl]
    simp
  rw [hsplit]
  refine stripEdges_between (bareEdges_stripEdges p l) ?_ ?_
  · simpa [or_imp, forall_and] using ⟨ha, hu⟩
  · simpa [or_imp, forall_and] using ⟨hv, hb⟩

theorem stripEdges_eq_nil_iff : stripEdges p l = [] ↔ ∀ x ∈ l, p x = true := by
  constructor
  · intro h x hx
    obtain ⟨a, b, hl, ha, hb⟩ := exists_eq_stripEdges p l
    rw [hl, h, List.append_nil] at hx
    exact (List.mem_append.mp hx).elim (ha x) (hb x)
  · intro h
    simpa using stripEdges_between (m := []) (b := []) ⟨nofun, nofun⟩ h nofun

theorem stripEdges_sublist (p : α → Bool) (l : List α) : (stripEdges p l).Sublist l :=
  (List.rdropWhile_prefix p _).sublist.trans (List.dropWhile_sublist p)

end Edges

namespace Text

variable {p : Char → Bool} {t m a b : Text} {c : Char}

theorem dropEndWhile_eq_rdropWhile (p : Char → Bool) (t : Text) :
    dropEndWhile p t = t.rdropWhile p := by
  induction t with
  | nil => rfl
  | cons c r ih =>
      unfold dropEndWhile
      rw [ih]
      simp only [List.rdropWhile, List.reverse_cons, List.dropWhile_append]
      cases h : r.reverse.dropWhile p with
      | nil => by_cases hc : p c = true <;> simp [hc]
      | cons d s => simp

theorem dropEndWhile_isPrefix (p : Char → Bool) (t : Text) : dropEndWhile p t <+: t :=
  dropEndWhile_eq_rdropWhile p t ▸ List.rdropWhile_prefix p t

@[simp] theorem dropEndWhile_idem (p : Char → Bool) (t : Text) :
    dropEndWhile p (dropEndWhile p t) = dropEndWhile p t := by
  simp only [dropEndWhile_eq_rdropWhile, List.rdropWhile_idempotent]

/-- What is dropped at the end satisfies the test. -/
theorem exists_dropEndWhile_append (p : Char → Bool) (t : Text) :
    ∃ b, t = dropEndWhile p t ++ b ∧ ∀ c ∈ b, p c = true :=
  dropEndWhile_eq_rdropWhile p t ▸ exists_rdropWhile_append p t

theorem dropEndWhile_eq_self_iff : dropEndWhile p t = t ↔ ∀ c ∈ t.getLast?, p c = false := by
  constructor
  · intro h c hc
    rw [← h, dropEndWhile_eq_rdropWhile] at hc
    exact not_of_mem_getLast?_rdropWhile hc
  · intro h
    rw [dropEndWhile_eq_rdropWhile, List.rdropWhile_eq_self_iff]
    intro hne
    simp [h _ (List.getLast_mem_getLast? hne)]

/-! ## Blanks at the edges -/

theorem trim_eq_stripEdges (t : Text) : trim t = stripEdges isBlank t :=
  dropEndWhile_eq_rdropWhile isBlank _

/-- A text with no blank at either edge. -/
def IsTrimmed (t : Text) : Prop := BareEdges isBlank t

@[simp] theorem isTrimmed_nil : IsTrimmed [] := ⟨nofun, nofun⟩

theorem isTrimmed_trim (t : Text) : IsTrimmed (trim t) :=
  trim_eq_stripEdges t ▸ bareEdges_stripEdges isBlank t

/-- Trimming cuts off blanks on both sides. -/
theorem exists_eq_trim (t : Text) :
    ∃ a b, t = a ++ trim t ++ b ∧ (∀ c ∈ a, isBlank c = true) ∧ ∀ c ∈ b, isBlank c = true :=
  trim_eq_stripEdges t ▸ exists_eq_stripEdges isBlank t

theorem trim_eq_self_iff : trim t = t ↔ IsTrimmed t :=
  trim_eq_stripEdges t ▸ stripEdges_eq_self_iff

@[simp] theorem trim_trim (t : Text) : trim (trim t) = trim t := trim_eq_self_iff.mpr (isTrimmed_trim t)

@[simp] theorem trim_nil : trim [] = [] := rfl

/-- Blanks around a text make no difference to what trimming leaves. -/
theorem trim_append_append (ha : ∀ c ∈ a, isBlank c = true) (hb : ∀ c ∈ b, isBlank c = true) :
    trim (a ++ t ++ b) = trim t := by
  rw [trim_eq_stripEdges, trim_eq_stripEdges, stripEdges_append_append ha hb]

theorem trim_eq_nil_iff : trim t = [] ↔ ∀ c ∈ t, isBlank c = true :=
  trim_eq_stripEdges t ▸ stripEdges_eq_nil_iff

theorem trim_sublist (t : Text) : (trim t).Sublist t :=
  trim_eq_stripEdges t ▸ stripEdges_sublist isBlank t

theorem mem_of_mem_trim (h : c ∈ trim t) : c ∈ t := (trim_sublist t).subset h

/-! ## Spaces and tabs at the end -/

theorem trimSpacesEnd_isPrefix (t : Text) : trimSpacesEnd t <+: t := dropEndWhile_isPrefix _ t

@[simp] theorem trimSpacesEnd_trimSpacesEnd (t : Text) :
    trimSpacesEnd (trimSpacesEnd t) = trimSpacesEnd t := dropEndWhile_idem _ t

@[simp] theorem trimSpacesEnd_nil : trimSpacesEnd [] = [] := rfl

@[simp] theorem trim_trimSpacesEnd (t : Text) : trim (trimSpacesEnd t) = trim t := by
  obtain ⟨b, ht, hb⟩ := exists_dropEndWhile_append isSpaceOrTab t
  have hblank : ∀ c ∈ b, isBlank c = true := fun c hc ↦ isBlank_of_isSpaceOrTab (hb c hc)
  conv => rhs; rw [ht]
  exact (trim_append_append (a := []) nofun hblank).symm

/-- A text that is more than blanks begins with the same character without its spaces at the
end. -/
theorem head?_trimSpacesEnd (h : trim t ≠ []) : (trimSpacesEnd t).head? = t.head? := by
  obtain ⟨s, hs⟩ := trimSpacesEnd_isPrefix t
  conv => rhs; rw [← hs]
  cases hc : trimSpacesEnd t with
  | nil => exact absurd (by rw [← trim_trimSpacesEnd, hc]; rfl) h
  | cons c r => rfl

end Text

end Saltern
