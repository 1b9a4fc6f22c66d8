import Saltern.Proofs.Text.Patterns
import Saltern.Yaml.Scalar

/-!
# What plain scalars are taken for

YAML 1.1 gives a plain scalar a type by its form: nothing, a truth value, an integer, a fraction, a point in
time. The numbers for which a scalar is quoted are all the integers and all fractions but those with no
digit behind their point.
-/

namespace Saltern.Yaml

open Pattern

/-- The types that a plain scalar may have by its form. -/
inductive ImplicitType
  | null
  | bool
  | int
  | float
  | timestamp
  deriving DecidableEq, Repr

/-! ## The forms -/

namespace Implicit

def within (low high c : Char) : Bool := low ≤ c && c ≤ high

def digit : Pattern := .one Char.isDigit

def octalPlace : Pattern := .one fun c ↦ within '0' '7' c || c == '_'

def hexPlace : Pattern := .one fun c ↦ c.isDigit || within 'a' 'f' c || within 'A' 'F' c || c == '_'

/-- Digits and underscores. -/
def places : Pattern := .star (.one fun c ↦ c.isDigit || c == '_')

/-- Digits and underscores, a digit first. -/
def whole : Pattern := .seq digit places

def sign : Pattern := opt (anyOf "-+")

def exponent : Pattern := chain [anyOf "eE", opt (anyOf "-+"), plus digit]

/-- Places to the base sixty behind the first. -/
def sixties : Pattern := plus (chain [char ':', opt (.one (within '0' '5')), digit])

def nullWords : List Text := ["", "~", "null", "Null", "NULL"]

def boolWords : List Text :=
  ["y", "Y", "yes", "Yes", "YES", "n", "N", "no", "No", "NO", "true", "True", "TRUE", "false", "False", "FALSE",
    "on", "On", "ON", "off", "Off", "OFF"]

def null : Pattern := choice (nullWords.map literal)

def bool : Pattern := choice (boolWords.map literal)

def int : Pattern :=
  choice
    [chain [sign, char '0', char 'b', plus (anyOf "01_")],
      chain [sign, char '0', plus octalPlace],
      chain [sign, char '0'],
      chain [sign, .one (within '1' '9'), places],
      chain [sign, char '0', char 'x', plus hexPlace],
      chain [sign, .one (within '1' '9'), places, sixties]]

def float : Pattern :=
  choice
    [chain [sign, whole, char '.', places, opt exponent],
      chain [sign, char '.', whole, opt exponent],
      chain [sign, whole, sixties, char '.', places],
      chain [sign, char '.', choice [literal "inf", literal "Inf", literal "INF"]],
      chain [char '.', choice [literal "nan", literal "NaN", literal "NAN"]]]

def oneOrTwo : Pattern := .seq digit (opt digit)

def year : Pattern := chain [digit, digit, digit, digit]

/-- A colon and two digits. -/
def sixtieth : Pattern := chain [char ':', digit, digit]

/-- Hours, minutes and seconds. -/
def clock : Pattern := chain [oneOrTwo, sixtieth, sixtieth, opt (.seq (char '.') (.star digit))]

/-- What parts the time from the day. -/
def parting : Pattern := .alt (anyOf "Tt") (plus (anyOf " \t"))

def zone : Pattern :=
  .seq (.star (anyOf " \t")) (.alt (char 'Z') (chain [anyOf "-+", oneOrTwo, opt sixtieth]))

/-- A day, or a day and a time of it. -/
def timestamp : Pattern :=
  .seq year
    (.alt (chain [char '-', digit, digit, char '-', digit, digit])
      (chain [char '-', oneOrTwo, char '-', oneOrTwo, parting, clock, opt zone]))

/-- A number with a point and no digit behind the point. -/
def openFraction : Pattern := chain [whole, char '.', opt (.seq (char '_') places), opt exponent]

example : timestamp.accepts "2001-12-14 21:59:43.10 -5" = true := by decide +kernel

end Implicit

/-- The form that gives a scalar its type. -/
def ImplicitType.form : ImplicitType → Pattern
  | .null => Implicit.null
  | .bool => Implicit.bool
  | .int => Implicit.int
  | .float => Implicit.float
  | .timestamp => Implicit.timestamp

namespace Implicit

variable {t u v : Text} {c : Char}

/-! ## Integers and fractions are numbers -/

theorem within_mono {low low' high : Char} (hlow : low ≤ low') (h : within low' high c = true) :
    within low high c = true := by
  simp only [within, Bool.and_eq_true, decide_eq_true_eq] at h ⊢
  exact ⟨Char.le_trans hlow h.1, h.2⟩

theorem whole_of_nonzero (hu : Matches (.one (within '1' '9')) u) (hv : Matches places v) :
    Matches whole (u ++ v) := by
  obtain ⟨c, hc, rfl⟩ := matches_one_iff.mp hu
  exact .seq (.one (within_mono (by decide) hc)) hv

theorem number_of_decimal {s m x : Text} (hs : Matches sign s)
    (hm : Matches (.alt (.seq whole (opt Number.fraction)) Number.fraction) m) (hx : Matches (opt exponent) x) :
    Matches Number.any (s ++ (m ++ x)) :=
  .choice (a := Number.decimal) (by simp) (hs.chain_cons (hm.chain_cons hx))

theorem number_of_whole {s w : Text} (hs : Matches sign s) (hw : Matches whole w) :
    Matches Number.any (s ++ w) := by
  have hm : Matches (.seq whole (opt Number.fraction)) (w ++ []) := .seq hw (.altLeft .empty)
  simpa using number_of_decimal hs (.altLeft hm) (.altLeft .empty)

theorem number_of_sixties {s w x f : Text} (hs : Matches sign s) (hw : Matches whole w) (hx : Matches sixties x)
    (hf : Matches (opt (.seq (char '.') places)) f) : Matches Number.any (s ++ (w ++ (x ++ f))) :=
  .choice (a := Number.sexagesimal) (by simp) (hs.chain_cons (hw.chain_cons (hx.chain_cons hf)))

/-- All integers are numbers. -/
theorem number_of_int (h : Matches int t) : Matches Number.any t := by
  obtain ⟨a, ha, h⟩ := matches_choice_iff.mp h
  simp only [List.mem_cons, List.not_mem_nil, or_false] at ha
  rcases ha with rfl | rfl | rfl | rfl | rfl | rfl <;>
    obtain ⟨s, v, hs, hv, rfl⟩ := matches_chain_cons_iff.mp h
  · obtain ⟨x, hx, rfl⟩ : ∃ x, Matches (plus (anyOf "01_")) x ∧ v = '0' :: 'b' :: x := by simpa using hv
    have hb : Matches (anyOf "bB") ['b'] := by simp
    exact .choice (a := Number.binary) (by simp) (hs.chain_cons (.char_cons (hb.chain_cons hx)))
  · obtain ⟨x, hx, rfl⟩ : ∃ x, Matches (plus octalPlace) x ∧ v = '0' :: x := by simpa using hv
    have ho : Matches (opt (anyOf "oO")) [] := by simp
    exact .choice (a := Number.octal) (by simp) (hs.chain_cons (.char_cons (ho.chain_cons hx)))
  · obtain rfl : v = ['0'] := by simpa using hv
    exact number_of_whole hs (.seq (s := ['0']) (.one rfl) .starNil)
  · obtain ⟨u, x, hu, hx, rfl⟩ := matches_chain_cons_iff.mp hv
    exact number_of_whole hs (whole_of_nonzero hu hx)
  · obtain ⟨x, hx, rfl⟩ : ∃ x, Matches (plus hexPlace) x ∧ v = '0' :: 'x' :: x := by simpa using hv
    have hb : Matches (anyOf "xX") ['x'] := by simp
    exact .choice (a := Number.hexadecimal) (by simp) (hs.chain_cons (.char_cons (hb.chain_cons hx)))
  · obtain ⟨u, v, hu, hwx, rfl⟩ := matches_chain_cons_iff.mp hv
    obtain ⟨w, x, hw, hx, rfl⟩ := matches_chain_cons_iff.mp hwx
    rw [← List.append_assoc u]
    simpa using number_of_sixties (f := []) hs (whole_of_nonzero hu hw) hx (.altLeft .empty)

/-- A stretch of digits and underscores is empty, begins with a digit or begins with an underscore. -/
theorem places_cases (h : Matches places t) :
    Matches (opt (.seq (char '_') places)) t ∨ Matches whole t := by
  cases t with
  | nil => exact .inl (.altLeft .empty)
  | cons c t =>
      obtain ⟨hc, ht⟩ := List.forall_mem_cons.mp (matches_star_one_iff.mp h)
      have hplaces : Matches places t := matches_star_one_iff.mpr ht
      rw [Bool.or_eq_true, beq_iff_eq] at hc
      rcases hc with hc | rfl
      · exact .inr (.seq (.one hc) hplaces)
      · exact .inl (.altRight (.seq (matches_char_iff.mpr rfl) hplaces))

/-- All fractions are numbers, but for those with no digit behind their point. -/
theorem number_of_float (h : Matches float t) :
    Matches Number.any t ∨ ∃ s u, Matches sign s ∧ Matches openFraction u ∧ t = s ++ u := by
  obtain ⟨a, ha, h⟩ := matches_choice_iff.mp h
  simp only [List.mem_cons, List.not_mem_nil, or_false] at ha
  rcases ha with rfl | rfl | rfl | rfl | rfl
  · obtain ⟨s, t₁, hs, h₁, rfl⟩ := matches_chain_cons_iff.mp h
    obtain ⟨w, t₂, hw, h₂, rfl⟩ := matches_chain_cons_iff.mp h₁
    obtain ⟨p, t₃, hp, h₃, rfl⟩ := matches_chain_cons_iff.mp h₂
    obtain ⟨f, x, hf, hx, rfl⟩ := matches_chain_cons_iff.mp h₃
    obtain rfl := matches_char_iff.mp hp
    rcases places_cases hf with hf | hf
    · exact .inr ⟨s, _, hs, hw.chain_cons (.char_cons (hf.chain_cons hx)), rfl⟩
    · have hfraction : Matches Number.fraction ('.' :: f) := .seq (matches_char_iff.mpr rfl) hf
      have := number_of_decimal hs (.altLeft (.seq hw (.altRight hfraction))) hx
      exact .inl (by simpa using this)
  · obtain ⟨s, t₁, hs, h₁, rfl⟩ := matches_chain_cons_iff.mp h
    obtain ⟨p, t₂, hp, h₂, rfl⟩ := matches_chain_cons_iff.mp h₁
    obtain ⟨f, x, hf, hx, rfl⟩ := matches_chain_cons_iff.mp h₂
    have := number_of_decimal hs (.altRight (.seq hp hf)) hx
    exact .inl (by simpa using this)
  · obtain ⟨s, t₁, hs, h₁, rfl⟩ := matches_chain_cons_iff.mp h
    obtain ⟨w, t₂, hw, h₂, rfl⟩ := matches_chain_cons_iff.mp h₁
    obtain ⟨x, f, hx, hf, rfl⟩ := matches_chain_cons_iff.mp h₂
    exact .inl (number_of_sixties hs hw hx (.altRight hf))
  · exact .inl (.choice (a := Number.infinity) (by simp) h)
  · exact .inl (.choice (a := Number.notANumber) (by simp) h)

theorem float_of_openFraction (h : Matches openFraction t) : Matches float t := by
  obtain ⟨w, t₁, hw, h₁, rfl⟩ := matches_chain_cons_iff.mp h
  obtain ⟨p, t₂, hp, h₂, rfl⟩ := matches_chain_cons_iff.mp h₁
  obtain ⟨f, x, hf, hx, rfl⟩ := matches_chain_cons_iff.mp h₂
  have hplaces : Matches places f := by
    rcases matches_opt_iff.mp hf with rfl | hf
    · exact .starNil
    · obtain ⟨l, r, hl, hr, rfl⟩ := matches_seq_iff.mp hf
      obtain rfl := matches_char_iff.mp hl
      exact .starAppend (.one rfl) hr
  have hsign : Matches sign [] := .altLeft .empty
  exact .choice (by simp) (hsign.chain_cons (hw.chain_cons (hp.chain_cons (hplaces.chain_cons hx))))

end Implicit

end Saltern.Yaml
