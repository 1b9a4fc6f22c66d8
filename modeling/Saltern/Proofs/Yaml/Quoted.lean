import Mathlib.Algebra.Ring.Parity
import Saltern.Proofs.Text.Runs
import Saltern.Proofs.Yaml.Unquoted

/-!
# Scalars in quotes

A scalar in single quotes is read up to its first quote that is not doubled, and this is its last character. So
every scalar is read back as the text it was made from, and different texts have different scalars.
-/

namespace Saltern.Yaml

open Text

variable {t u w r : Text} {ws : List Text} {c : Char}

/-! ## Reading -/

/-- A text with each doubled quote in it written once. -/
def undouble : Text → Text
  | '\'' :: '\'' :: t => '\'' :: undouble t
  | c :: t => c :: undouble t
  | [] => []

/-- What a scalar stands for: a text that begins with a quote loses its outer quotes, and those inside are written
once. -/
def unquote : Text → Text
  | '\'' :: t => undouble t.dropLast
  | t => t

/-- The text of a scalar whose opening quote has been read, and what stands behind it. The first quote that is not
doubled closes it. -/
def readQuoted : Text → Option (Text × Text)
  | '\'' :: '\'' :: t => (readQuoted t).map fun (u, r) ↦ ('\'' :: u, r)
  | '\'' :: t => some ([], t)
  | c :: t => (readQuoted t).map fun (u, r) ↦ (c :: u, r)
  | [] => none

theorem undouble_cons_of_ne (hc : c ≠ '\'') (t : Text) : undouble (c :: t) = c :: undouble t := by
  rw [undouble]
  rintro u rfl
  exact absurd rfl hc

theorem unquote_of_head? (h : t.head? ≠ some '\'') : unquote t = t := by
  cases t with
  | nil => rfl
  | cons c t =>
      rw [unquote]
      rintro u hu
      rw [hu] at h
      exact h rfl

theorem readQuoted_cons_of_ne (hc : c ≠ '\'') (t : Text) :
    readQuoted (c :: t) = (readQuoted t).map fun (u, r) ↦ (c :: u, r) := by
  rw [readQuoted]
  · exact fun _ h _ ↦ absurd h hc
  · exact fun h ↦ absurd h hc

theorem readQuoted_quote (hr : ∀ c ∈ r.head?, c ≠ '\'') : readQuoted ('\'' :: r) = some ([], r) := by
  rw [readQuoted]
  rintro u rfl
  exact absurd rfl (hr _ rfl)

/-! ## Doubled quotes -/

/-- A text with each quote in it written twice. -/
def double (t : Text) : Text := replaceChar '\'' ['\'', '\''] t

theorem double_quote_cons (t : Text) : double ('\'' :: t) = '\'' :: '\'' :: double t := rfl

theorem double_cons_of_ne (hc : c ≠ '\'') (t : Text) : double (c :: t) = c :: double t := by
  rw [double, replaceChar, List.flatMap_cons, if_neg hc]
  rfl

theorem double_append (t u : Text) : double (t ++ u) = double t ++ double u := List.flatMap_append

theorem quote_eq (t : Text) : quote t = '\'' :: (double t ++ ['\'']) := rfl

theorem undouble_double (t : Text) : undouble (double t) = t := by
  induction t with
  | nil => rfl
  | cons c t ih =>
      by_cases hc : c = '\''
      · rw [hc, double_quote_cons, undouble, ih]
      · rw [double_cons_of_ne hc, undouble_cons_of_ne hc, ih]

/-- No doubled quote closes the scalar, and the one behind them does. -/
theorem readQuoted_double (hr : ∀ c ∈ r.head?, c ≠ '\'') (t : Text) :
    readQuoted (double t ++ '\'' :: r) = some (t, r) := by
  induction t with
  | nil => exact readQuoted_quote hr
  | cons c t ih =>
      by_cases hc : c = '\''
      · rw [hc, double_quote_cons, List.cons_append, List.cons_append, readQuoted, ih, Option.map_some]
      · rw [double_cons_of_ne hc, List.cons_append, readQuoted_cons_of_ne hc, ih, Option.map_some]

example : readQuoted "it''s' # note" = some (("it's" : Text), (" # note" : Text)) := rfl

theorem double_of_gap (h : ∀ c ∈ t, (c == '\'') = false) : double t = t := by
  induction t with
  | nil => rfl
  | cons c t ih =>
      obtain ⟨hc, ht⟩ := List.forall_mem_cons.mp h
      rw [double_cons_of_ne (beq_eq_false_iff_ne.mp hc), ih ht]

theorem double_of_run (h : ∀ c ∈ w, (c == '\'') = true) :
    (∀ c ∈ double w, (c == '\'') = true) ∧ (double w).length = 2 * w.length := by
  induction w with
  | nil => exact ⟨nofun, rfl⟩
  | cons c w ih =>
      obtain ⟨hc, hw⟩ := List.forall_mem_cons.mp h
      obtain ⟨hall, hlength⟩ := ih hw
      rw [beq_iff_eq.mp hc, double_quote_cons]
      refine ⟨by simpa using hall, ?_⟩
      rw [List.length_cons, List.length_cons, List.length_cons, hlength, Nat.mul_succ]

theorem head?_double (t : Text) : (double t).head? = t.head? := by
  cases t with
  | nil => rfl
  | cons c t =>
      by_cases hc : c = '\''
      · rw [hc]
        rfl
      · rw [double_cons_of_ne hc]
        rfl

/-- Doubling the quotes of a text doubles the runs of quotes in it. -/
theorem hasRuns_double (h : HasRuns (· == '\'') t ws) : HasRuns (· == '\'') (double t) (ws.map double) := by
  induction h with
  | gap hg => exact (double_of_gap hg).symm ▸ .gap hg
  | @run g w t ws hg hne hw ht _ ih =>
      obtain ⟨hall, hlength⟩ := double_of_run hw
      have hdouble : double w ≠ [] := by
        have hpos := List.length_pos_iff.mpr hne
        exact List.ne_nil_of_length_pos (by omega)
      rw [double_append, double_append, double_of_gap hg, List.map_cons]
      exact .run hg hdouble hall (head?_double t ▸ ht) ih

theorem even_runs_double (t : Text) :
    ∃ ws, HasRuns (· == '\'') (double t) ws ∧ ∀ w ∈ ws, Even w.length := by
  obtain ⟨ws, h⟩ := exists_hasRuns (· == '\'') t
  refine ⟨ws.map double, hasRuns_double h, fun v hv ↦ ?_⟩
  obtain ⟨w, hw, rfl⟩ := List.mem_map.mp hv
  rw [(double_of_run (h.forall_mem w hw).2).2]
  exact even_two_mul w.length

/-! ## Scalars read back -/

/-- A scalar in quotes that stands for a text. Between its outer quotes all runs of quotes are even, so that it is
closed by its last character and by none before. -/
structure IsQuoted (u t : Text) : Prop where
  even : ∃ inner ws, u = '\'' :: (inner ++ ['\'']) ∧ HasRuns (· == '\'') inner ws ∧ ∀ w ∈ ws, Even w.length
  closed : ∀ r, (∀ c ∈ r.head?, c ≠ '\'') → ∃ q, u ++ r = '\'' :: q ∧ readQuoted q = some (t, r)

theorem isQuoted_quote (t : Text) : IsQuoted (quote t) t := by
  obtain ⟨ws, hruns, heven⟩ := even_runs_double t
  refine ⟨⟨double t, ws, rfl, hruns, heven⟩, fun r hr ↦ ⟨double t ++ '\'' :: r, ?_, readQuoted_double hr t⟩⟩
  rw [quote_eq, List.cons_append, List.append_assoc, List.singleton_append]

theorem unquote_quote (t : Text) : unquote (quote t) = t := by
  rw [quote_eq, unquote, List.dropLast_concat, undouble_double]

/-- A plain scalar does not begin like one in quotes. -/
theorem scalar_cases (t : Text) : scalar t = quote t ∨ scalar t = t ∧ t.head? ≠ some '\'' := by
  rw [scalar]
  split
  · next h => exact .inr ⟨rfl, fun hq ↦ (standsPlain_of_isPlain h).start _ hq (by decide)⟩
  · exact .inl rfl

theorem unquote_scalar (t : Text) : unquote (scalar t) = t := by
  obtain h | ⟨h, hhead⟩ := scalar_cases t
  · rw [h, unquote_quote]
  · rw [h, unquote_of_head? hhead]

/-- Every text is read back from its scalar, in quotes or not, and no two texts have the same one. -/
theorem scalar_readable :
    (∀ t, unquote (scalar t) = t ∧ unquote (quote t) = t ∧ IsQuoted (quote t) t ∧
      (scalar t = quote t ∨ scalar t = t ∧ t.head? ≠ some '\'')) ∧
      Function.Injective scalar :=
  ⟨fun t ↦ ⟨unquote_scalar t, unquote_quote t, isQuoted_quote t, scalar_cases t⟩,
    Function.LeftInverse.injective unquote_scalar⟩

end Saltern.Yaml
