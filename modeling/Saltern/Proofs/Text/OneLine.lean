import Saltern.Proofs.Text.Lines

/-!
# Texts of one line, and the lines of a text that start at its margin
-/

namespace Saltern

namespace Text

variable {t u l : Text} {c : Char}

/-- A text without line feeds. -/
def IsLine (t : Text) : Prop := '\n' ∉ t

instance (t : Text) : Decidable t.IsLine := inferInstanceAs (Decidable ('\n' ∉ t))

/-- For texts that are written out, by evaluation. -/
theorem IsLine.of_all (h : t.all (· != '\n') = true) : IsLine t := by
  intro hn
  simpa using List.all_eq_true.mp h _ hn

@[simp] theorem isLine_nil : IsLine [] := List.not_mem_nil

@[simp] theorem isLine_cons : IsLine (c :: t) ↔ c ≠ '\n' ∧ IsLine t := by
  simp [IsLine, eq_comm]

@[simp] theorem isLine_append : IsLine (t ++ u) ↔ IsLine t ∧ IsLine u := by
  simp [IsLine]

theorem IsLine.append (ht : IsLine t) (hu : IsLine u) : IsLine (t ++ u) := isLine_append.mpr ⟨ht, hu⟩

theorem IsLine.subset (h : IsLine t) (hs : ∀ c ∈ u, c ∈ t) : IsLine u := fun hn ↦ h (hs _ hn)

theorem mem_joinWith {sep : Text} {ts : List Text} (h : c ∈ joinWith sep ts) :
    c ∈ sep ∨ ∃ t ∈ ts, c ∈ t := by
  induction ts with
  | nil => cases h
  | cons t ts ih =>
      cases ts with
      | nil => exact .inr ⟨t, List.mem_cons_self, h⟩
      | cons u ts =>
          rw [joinWith_cons_cons, List.mem_append, List.mem_append] at h
          rcases h with (h | h) | h
          · exact .inr ⟨t, List.mem_cons_self, h⟩
          · exact .inl h
          · exact (ih h).imp_right fun ⟨v, hv, hc⟩ ↦ ⟨v, List.mem_cons_of_mem t hv, hc⟩

/-- Each of the texts stands somewhere in what they are joined to. -/
theorem isInfix_joinWith {sep t : Text} {ts : List Text} (h : t ∈ ts) : t <:+: joinWith sep ts := by
  induction ts with
  | nil => cases h
  | cons u ts ih =>
      cases ts with
      | nil =>
          rw [List.mem_singleton.mp h]
          exact List.infix_rfl
      | cons v ts =>
          rw [joinWith_cons_cons]
          rcases List.mem_cons.mp h with rfl | h
          · rw [List.append_assoc]
            exact (List.prefix_append ..).isInfix
          · exact (ih h).trans (List.suffix_append ..).isInfix

theorem isLine_joinWith {sep : Text} {ts : List Text} (hs : IsLine sep) (h : ∀ t ∈ ts, IsLine t) :
    IsLine (joinWith sep ts) := by
  intro hn
  rcases mem_joinWith hn with hn | ⟨t, ht, hn⟩
  · exact hs hn
  · exact h t ht hn

theorem mem_of_mem_splitOn {sep : Char} (h : l ∈ splitOn sep t) : ∀ c ∈ l, c ∈ t ∧ c ≠ sep := by
  induction t generalizing l with
  | nil => simp_all
  | cons d t ih =>
      have hlater : ∀ {m : Text}, m ∈ splitOn sep t → ∀ c ∈ m, c ∈ d :: t ∧ c ≠ sep :=
        fun hm c hc ↦ (ih hm c hc).imp_left (List.mem_cons_of_mem d)
      rw [splitOn] at h
      split at h
      · rcases List.mem_cons.mp h with rfl | h
        · exact List.forall_mem_nil _
        · exact hlater h
      · next hd =>
        obtain ⟨p, ps, hps⟩ := List.exists_cons_of_ne_nil (splitOn_ne_nil sep t)
        rw [hps, consHead] at h
        rcases List.mem_cons.mp h with rfl | h
        · refine List.forall_mem_cons.mpr ⟨⟨List.mem_cons_self, hd⟩, hlater ?_⟩
          rw [hps]
          exact List.mem_cons_self
        · exact hlater (hps ▸ List.mem_cons_of_mem p h)

theorem isLine_of_mem_splitOn (h : l ∈ splitOn '\n' t) : IsLine l :=
  fun hn ↦ (mem_of_mem_splitOn h _ hn).2 rfl

/-- Splitting goes piece by piece over a separator. -/
theorem splitOn_append_sep (sep : Char) (t u : Text) :
    splitOn sep (t ++ sep :: u) = splitOn sep t ++ splitOn sep u := by
  induction t with
  | nil => exact if_pos rfl
  | cons c t ih =>
      rw [List.cons_append, splitOn, splitOn, ih]
      split
      · rfl
      · obtain ⟨p, ps, hps⟩ := List.exists_cons_of_ne_nil (splitOn_ne_nil sep t)
        rw [hps]
        rfl

theorem joinWith_append {sep : Text} {ts us : List Text} (hts : ts ≠ []) (hus : us ≠ []) :
    joinWith sep (ts ++ us) = joinWith sep ts ++ sep ++ joinWith sep us := by
  induction ts with
  | nil => exact absurd rfl hts
  | cons t ts ih =>
      cases ts with
      | nil =>
          obtain ⟨u, us, rfl⟩ := List.exists_cons_of_ne_nil hus
          rfl
      | cons t' ts =>
          have hrest := ih (List.cons_ne_nil t' ts)
          rw [List.cons_append] at hrest
          rw [List.cons_append, List.cons_append, joinWith_cons_cons, joinWith_cons_cons, hrest]
          simp only [List.append_assoc]

theorem joinWith_concat {sep : Text} {ts : List Text} (h : ts ≠ []) (l : Text) :
    joinWith sep (ts ++ [l]) = joinWith sep ts ++ sep ++ l :=
  joinWith_append h (List.cons_ne_nil l [])

/-! ## Root lines -/

/-- Whether a line starts at the margin and is no comment. -/
def isRoot (l : Text) : Bool := !l.isEmpty && l.head? != some ' ' && l.head? != some '#'

/-- The lines of a text that start at the margin, comments left out. -/
def rootLines (t : Text) : List Text := (splitOn '\n' t).filter isRoot

@[simp] theorem rootLines_nil : rootLines [] = [] := rfl

theorem rootLines_append_newline (t u : Text) :
    rootLines (t ++ '\n' :: u) = rootLines t ++ rootLines u := by
  rw [rootLines, splitOn_append_sep, List.filter_append]
  rfl

theorem rootLines_of_isLine (h : IsLine l) : rootLines l = if isRoot l then [l] else [] := by
  rw [rootLines, splitOn_of_not_mem h, List.filter_singleton]
  cases isRoot l <;> rfl

theorem rootLines_joinWith_newline (ts : List Text) :
    rootLines (joinWith ['\n'] ts) = ts.flatMap rootLines := by
  induction ts with
  | nil => rfl
  | cons t ts ih =>
      cases ts with
      | nil => simp
      | cons u ts =>
          rw [joinWith_cons_cons, List.append_assoc, List.singleton_append, rootLines_append_newline, ih]
          rfl

theorem rootLines_joinWith_blank (ts : List Text) :
    rootLines (joinWith ['\n', '\n'] ts) = ts.flatMap rootLines := by
  induction ts with
  | nil => rfl
  | cons t ts ih =>
      cases ts with
      | nil => simp
      | cons u ts =>
          rw [joinWith_cons_cons, List.append_assoc, List.cons_append, List.singleton_append,
            rootLines_append_newline, ← List.nil_append ('\n' :: _), rootLines_append_newline, ih]
          rfl

/-- Lines that are indented, and comments, are no root lines. -/
theorem rootLines_of_not_isRoot (h : IsLine l) (hr : isRoot l = false) : rootLines l = [] := by
  rw [rootLines_of_isLine h, hr]
  rfl

end Text

end Saltern
