import Saltern.Proofs.Yaml.Misread

/-!
# Scalars without quotes

A scalar without quotes is a plain one, and no type is given to it by its form: with two exceptions, which are
all there are. A fraction that ends at its point and a point in time are written as they stand.
-/

namespace Saltern

namespace Text

theorem holds_eq_true_iff {part t : Text} : holds part t = true ↔ part <:+: t := by
  induction t with
  | nil => simp [holds]
  | cons c t ih => rw [holds, Bool.or_eq_true, ih, List.isPrefixOf_iff_prefix, List.infix_cons_iff]

theorem asciiLowerChar_of_isDigit {c : Char} (h : c.isDigit = true) : asciiLowerChar c = c := by
  rw [asciiLowerChar, if_neg]
  simp only [Char.isDigit, Bool.and_eq_true, decide_eq_true_eq] at h
  exact fun hA ↦ absurd (Char.le_trans hA.1 h.2) (by decide)

end Text

namespace Yaml

open Pattern

variable {t u : Text} {c d : Char}

/-! ## What is written without quotes -/

theorem length_quote (t : Text) : t.length < (quote t).length := by
  have hreplace : t.length ≤ (Text.replaceChar '\'' ['\'', '\''] t).length := by
    induction t with
    | nil => exact Nat.le_refl 0
    | cons c t ih =>
        simp only [Text.replaceChar, List.flatMap_cons, List.length_append, List.length_cons] at ih ⊢
        split <;> simp only [List.length_cons, List.length_nil] <;> omega
  simp only [quote, List.length_append, List.length_cons]
  omega

theorem scalar_eq_self_iff : scalar t = t ↔ isPlain t = true := by
  rw [scalar]
  split
  · next h => simp [h]
  · next h =>
    refine iff_of_false (fun hq ↦ ?_) h
    have := length_quote t
    rw [hq] at this
    exact Nat.lt_irrefl _ this

theorem isPlain_iff : isPlain t = true ↔
    isPlainText t = true ∧ t.getLast? ≠ some ' ' ∧ t.getLast? ≠ some ':' ∧ ¬ [':', ' '] <:+: t ∧
      isKeyword t = false ∧ ¬ Matches Number.any t := by
  have hcolon : Text.holds ": ".toList t = false ↔ ¬ [':', ' '] <:+: t := by
    rw [← Bool.not_eq_true, Text.holds_eq_true_iff]
    rfl
  rw [← accepts_iff, isPlain]
  simp only [Bool.and_eq_true, Bool.not_eq_true', bne_iff_ne, hcolon, Bool.not_eq_true]
  tauto

/-- The characters that open other nodes than plain scalars. -/
def indicators : Text := "-?:,[]\x7b\x7d#&*!|>'\"%@`"

/-- What a text must look like to stand without quotes, whatever it is read as then. -/
structure StandsPlain (t : Text) : Prop where
  ne_nil : t ≠ []
  start : ∀ c ∈ t.head?, c ∉ indicators
  mapping : ¬ [':', ' '] <:+: t
  comment : ¬ [' ', '#'] <:+: t
  ending : ∀ c ∈ t.getLast?, c ≠ ':' ∧ c ≠ ' '

theorem isPlainText_iff : isPlainText t = true ↔
    (∃ c ∈ t.head?, isPlainStart c = true) ∧ ∀ c ∈ t.tail, isPlainChar c = true := by
  cases t with
  | nil => simp [isPlainText]
  | cons c t => simp [isPlainText]

theorem standsPlain_of_isPlain (h : isPlain t = true) : StandsPlain t := by
  obtain ⟨htext, hspace, hcolon, hmapping, -, -⟩ := isPlain_iff.mp h
  obtain ⟨⟨c, hc, hstart⟩, hrest⟩ := isPlainText_iff.mp htext
  obtain ⟨r, rfl⟩ := List.head?_eq_some_iff.mp hc
  have hindicators : indicators.all (!isPlainStart ·) = true := by decide
  have hhash : '#' ∉ r := fun hm ↦ absurd (hrest _ hm) (by decide)
  refine ⟨List.cons_ne_nil c r, ?_, hmapping, ?_, fun d hd ↦ ⟨?_, ?_⟩⟩
  · rintro d ⟨rfl⟩ hd
    have hno := List.all_eq_true.mp hindicators c hd
    rw [hstart] at hno
    cases hno
  · rintro ⟨a, b, hab⟩
    cases a with
    | nil => exact hhash (by rw [← (List.cons.inj hab).2]; simp)
    | cons d a => exact hhash (by rw [← (List.cons.inj hab).2]; simp)
  · rintro rfl
    exact hcolon hd
  · rintro rfl
    exact hspace hd

/-! ## Words -/

theorem isKeyword_of_null (h : Matches Implicit.null t) : t = [] ∨ isKeyword t = true := by
  have hwords : ∀ w ∈ Implicit.nullWords, w = [] ∨ isKeyword w = true := by decide
  exact hwords t (matches_words_iff.mp h)

theorem isKeyword_of_bool (h : Matches Implicit.bool t) : isKeyword t = true := by
  have hwords : ∀ w ∈ Implicit.boolWords, isKeyword w = true := by decide
  exact hwords t (matches_words_iff.mp h)

/-- No keyword begins with a digit. -/
theorem isKeyword_of_digit (ht : t.head? = some d) (hd : d.isDigit = true) : isKeyword t = false := by
  have hwords : ∀ w ∈ keywords, ∀ c ∈ w.head?, c.isDigit = false := by simp [keywords]
  obtain ⟨r, rfl⟩ := List.head?_eq_some_iff.mp ht
  rw [← Bool.not_eq_true, isKeyword, List.contains_iff_mem]
  intro hmem
  have := hwords _ hmem d (by rw [Text.asciiLower, List.map_cons, Text.asciiLowerChar_of_isDigit hd]; rfl)
  rw [hd] at this
  cases this

/-! ## The exceptions are plain -/

theorem isPlainChar_of_isDigit (h : c.isDigit = true) : isPlainChar c = true := by
  simp [isPlainChar, Char.isAlphanum, h]

/-- What begins with a digit, holds plain characters only and is tidy stands without quotes if it is not told for
a number. -/
theorem isPlain_of_tidy (ht : t.head? = some d) (hd : d.isDigit = true) (hall : ∀ c ∈ t, isPlainChar c = true)
    (htidy : Implicit.Tidy t) (hn : ¬ Matches Number.any t) : isPlain t = true := by
  refine isPlain_iff.mpr ⟨isPlainText_iff.mpr ⟨⟨d, ht, ?_⟩, fun c hc ↦ hall c (List.mem_of_mem_tail hc)⟩, htidy.last,
    fun hcolon ↦ ?_, htidy.not_infix, isKeyword_of_digit ht hd, hn⟩
  · simp [isPlainStart, Char.isAlphanum, hd]
  · obtain ⟨u, rfl⟩ := List.getLast?_eq_some_iff.mp hcolon
    obtain ⟨c, hc, -⟩ := htidy.colon u [] rfl
    cases hc

open Implicit in
theorem isPlain_of_openFraction (h : Matches openFraction t) : isPlain t = true := by
  have honly : openFraction.Only (isPlainChar · = true) := by
    simp +contextual [openFraction, whole, digit, places, exponent, chain, opt, plus, char, anyOf, Only,
      isPlainChar_of_isDigit, or_imp, forall_and]
    decide
  have htidy : Tidy t := .of_matches h (by decide) (by decide)
  have hn := not_number_of_openFraction h
  have hall := h.forall_mem honly
  obtain ⟨w, r, hw, -, rfl⟩ := exists_of_openFraction h
  obtain ⟨d, ht, hd⟩ := head?_of_whole hw ('.' :: r)
  exact isPlain_of_tidy ht hd hall htidy hn

open Implicit in
theorem isPlain_of_timestamp (h : Matches timestamp t) (htab : '\t' ∉ t) : isPlain t = true := by
  have honly : timestamp.Only fun c ↦ c = '\t' ∨ isPlainChar c = true := by
    simp +contextual [timestamp, year, digit, oneOrTwo, clock, sixtieth, parting, zone, chain, opt, plus, char, anyOf,
      Only, isPlainChar_of_isDigit, or_imp, forall_and]
    decide
  have hall : ∀ c ∈ t, isPlainChar c = true :=
    fun c hc ↦ (h.forall_mem honly c hc).resolve_left (ne_of_mem_of_not_mem hc htab)
  have htidy := tidy_timestamp h
  have hn := not_number_of_timestamp h
  obtain ⟨y, r, rfl, hne, hy⟩ := exists_of_timestamp h
  obtain ⟨d, y, rfl⟩ := List.exists_cons_of_ne_nil hne
  exact isPlain_of_tidy rfl (hy d List.mem_cons_self) hall htidy hn

theorem tab_not_mem_of_isPlain (h : isPlain t = true) : '\t' ∉ t := by
  obtain ⟨⟨c, hc, hstart⟩, hrest⟩ := isPlainText_iff.mp (isPlain_iff.mp h).1
  obtain ⟨r, rfl⟩ := List.head?_eq_some_iff.mp hc
  rw [List.mem_cons, not_or]
  refine ⟨?_, fun hm ↦ absurd (hrest _ hm) (by decide)⟩
  rintro rfl
  exact absurd hstart (by decide)

/-- A plain text has no sign in front. -/
theorem openFraction_of_sign {s : Text} (h : isPlain t = true) (hs : Matches Implicit.sign s)
    (hu : Matches Implicit.openFraction u) (ht : t = s ++ u) : Matches Implicit.openFraction t := by
  rcases matches_opt_iff.mp hs with rfl | hs
  · exact ht ▸ hu
  · obtain ⟨c, hc, rfl⟩ := matches_anyOf_iff.mp hs
    obtain ⟨⟨d, hd, hstart⟩, -⟩ := isPlainText_iff.mp (isPlain_iff.mp h).1
    have hsigns : ∀ c ∈ "-+".toList, isPlainStart c = false := by simp [isPlainStart]
    rw [ht] at hd
    obtain rfl := Option.some.inj hd
    rw [hsigns c hc] at hstart
    cases hstart

/-! ## Every form -/

/-- A scalar without quotes stands where a plain scalar may stand. It has the form of a type exactly if it is a
fraction with no digit behind its point, or a point in time; and all of these, unless they hold a tab, are
written without quotes. -/
theorem scalar_unquoted (t : Text) :
    (scalar t = t → StandsPlain t) ∧
      ∀ k : ImplicitType, scalar t = t ∧ Matches k.form t ↔
        k = .float ∧ Matches Implicit.openFraction t ∨
          k = .timestamp ∧ Matches Implicit.timestamp t ∧ '\t' ∉ t := by
  rw [scalar_eq_self_iff]
  refine ⟨standsPlain_of_isPlain, fun k ↦ ⟨?_, ?_⟩⟩
  · rintro ⟨hplain, hform⟩
    obtain ⟨htext, -, -, -, hkeyword, hnumber⟩ := isPlain_iff.mp hplain
    cases k with
    | null =>
        rcases isKeyword_of_null hform with rfl | hnull
        · exact absurd htext (by decide)
        · rw [hkeyword] at hnull
          cases hnull
    | bool =>
        rw [isKeyword_of_bool hform] at hkeyword
        cases hkeyword
    | int => exact absurd (Implicit.number_of_int hform) hnumber
    | float =>
        rcases Implicit.number_of_float hform with h | ⟨s, u, hs, hu, ht⟩
        · exact absurd h hnumber
        · exact .inl ⟨rfl, openFraction_of_sign hplain hs hu ht⟩
    | timestamp => exact .inr ⟨rfl, hform, tab_not_mem_of_isPlain hplain⟩
  · rintro (⟨rfl, h⟩ | ⟨rfl, h, htab⟩)
    · exact ⟨isPlain_of_openFraction h, Implicit.float_of_openFraction h⟩
    · exact ⟨isPlain_of_timestamp h htab, h⟩

/-- A path with a colon in it, and a version with two points. -/
theorem scalar_unquoted_source :
    let t : Text := "salt://files/app-1.2.3"
    scalar t = t ∧ StandsPlain t ∧ ∀ k : ImplicitType, ¬ Matches k.form t := by
  intro t
  have hplain : scalar t = t := by decide +kernel
  obtain ⟨hstands, hforms⟩ := scalar_unquoted t
  refine ⟨hplain, hstands hplain, fun k hk ↦ ?_⟩
  rcases (hforms k).mp ⟨hplain, hk⟩ with ⟨-, h⟩ | ⟨-, h, -⟩
  · exact absurd (accepts_iff.mpr h) (by decide +kernel)
  · exact absurd (accepts_iff.mpr h) (by decide +kernel)

/-- A number that ends in a point, and a day, are written without quotes. -/
theorem scalar_of_number_and_day :
    scalar "1." = "1.".toList ∧ Matches Implicit.float "1." ∧
      scalar "2024-01-02" = "2024-01-02".toList ∧ Matches Implicit.timestamp "2024-01-02" :=
  ⟨by decide +kernel, accepts_iff.mp (by decide +kernel), by decide +kernel, accepts_iff.mp (by decide +kernel)⟩

end Yaml

end Saltern
