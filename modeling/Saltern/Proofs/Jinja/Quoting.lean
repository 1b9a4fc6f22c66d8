import Saltern.Proofs.Jinja.Literal

/-!
# Literals with their quotes escaped

A literal in which nothing but the quotes was escaped denotes its string exactly where every backslash of the
string stays: behind it stands a character that makes no escape.
-/

namespace Saltern.Jinja

/-- A string with its single quotes escaped, and nothing else. -/
def escaped (k : Text) : Text := Text.replaceChar '\'' ['\\', '\''] k

/-- A string as a literal in which only the quotes are escaped. -/
def singleQuoted (k : Text) : Text := '\'' :: escaped k ++ ['\'']

/-- Whether every backslash of a string stays when escapes are replaced: behind it stands a character that
makes no escape. -/
def Inert (k : Text) : Prop := ∀ i, k[i]? = some '\\' → ∃ c, k[i + 1]? = some c ∧ opens c = false

variable {named : Text → Option Char} {q c : Char} {t u r k b d s p : Text} {n : Nat}

/-! ## What an escape denotes -/

theorem meaning?_of_not_opens (h : opens c = false) (r : Text) :
    meaning? named (c :: r) = some (['\\', c], 1) := by
  simp only [opens, Bool.or_eq_false_iff, decide_eq_false_iff_not, Option.isSome_eq_false_iff,
    Option.isNone_iff_eq_none] at h
  obtain ⟨⟨⟨⟨⟨⟨⟨hsingle, hfeed⟩, hoctal⟩, hx⟩, hu⟩, hU⟩, hN⟩, hascii⟩ := h
  rw [meaning?, hsingle]
  simp only [if_neg hfeed, hoctal, Bool.false_eq_true, if_false, if_neg hx, if_neg hu, if_neg hU, if_neg hN,
    if_pos (Nat.lt_of_not_le hascii)]

/-- Whether an escape takes some more characters behind its first, all of them bare, and stands for at most
one character. -/
def TakesBare (t d : Text) (n : Nat) : Prop :=
  ∃ u r, t = u ++ r ∧ n = u.length + 1 ∧ Bare '\'' u ∧ d.length ≤ 1

theorem byDigits?_spec {count : Nat} (h : byDigits? count t = some (d, n)) : TakesBare t d n := by
  dsimp only [byDigits?] at h
  split at h
  · next hdigits =>
    obtain ⟨c, -, hc⟩ := Option.map_eq_some_iff.mp h
    obtain ⟨rfl, rfl⟩ := Prod.mk.inj hc
    refine ⟨t.take count, t.drop count, (List.take_append_drop count t).symm, ?_,
      bare_of_digits rfl hdigits.2, Nat.le_refl 1⟩
    rw [hdigits.1]
  · cases h

theorem byOctal?_spec (hc : isOctal c = true) (h : byOctal? (c :: t) = some (d, n)) : TakesBare t d n := by
  obtain ⟨x, -, hx⟩ := Option.map_eq_some_iff.mp h
  obtain ⟨rfl, rfl⟩ := Prod.mk.inj hx
  obtain ⟨r, hr⟩ : (t.take 2).takeWhile isOctal <+: t :=
    (List.takeWhile_prefix _).trans (List.take_prefix 2 t)
  refine ⟨(t.take 2).takeWhile isOctal, r, hr.symm, ?_, ?_, Nat.le_refl 1⟩
  · rw [List.take_succ_cons, List.takeWhile_cons_of_pos hc, List.length_cons]
  · intro x hx
    have hoctal := List.all_eq_true.mp List.all_takeWhile x hx
    constructor <;> rintro rfl <;> cases hoctal

theorem byName?_spec (h : byName? named t = some (d, n)) : TakesBare t d n := by
  unfold byName? at h
  split at h
  · next t =>
    dsimp only at h
    split at h
    · next hend =>
      obtain ⟨c, -, hc⟩ := Option.map_eq_some_iff.mp h
      obtain ⟨rfl, rfl⟩ := Prod.mk.inj hc
      obtain ⟨r, hr⟩ := List.head?_eq_some_iff.mp hend
      have hname := List.prefix_iff_eq_append.mp (List.takeWhile_prefix (l := t) isNameChar)
      rw [hr] at hname
      refine ⟨'\x7b' :: t.takeWhile isNameChar ++ ['\x7d'], r, ?_, ?_, ?_, Nat.le_refl 1⟩
      · exact congrArg ('\x7b' :: ·) (hname.symm.trans (List.append_cons _ _ _))
      · simp
      · intro x hx
        simp only [List.mem_append, List.mem_cons, List.not_mem_nil, or_false] at hx
        rcases hx with (rfl | hx) | rfl
        · decide
        · have hpart := List.all_eq_true.mp List.all_takeWhile x hx
          constructor <;> rintro rfl <;> cases hpart
        · decide
    · cases h
  · cases h

theorem not_mem_spelled (h : 128 ≤ c.toNat) : c ∉ '\\' :: spelled c := by
  have hdigit : ∀ m < 16, (Json.hexDigit m).toNat < 128 := by decide
  have hdigits : ∀ count, ∀ x ∈ (List.range count).reverse.map fun i ↦ Json.hexDigit (c.toNat / 16 ^ i % 16),
      x.toNat < 128 := by
    intro count
    refine List.forall_mem_map.mpr fun i _ ↦ ?_
    exact hdigit _ (Nat.mod_lt _ (by decide))
  have hall : ∀ x ∈ '\\' :: spelled c, x.toNat < 128 := by
    refine List.forall_mem_cons.mpr ⟨by decide, ?_⟩
    unfold spelled
    dsimp only
    split
    · exact List.forall_mem_cons.mpr ⟨by decide, hdigits 2⟩
    · split
      · exact List.forall_mem_cons.mpr ⟨by decide, hdigits 4⟩
      · exact List.forall_mem_cons.mpr ⟨by decide, hdigits 8⟩
  intro hc
  exact absurd (hall c hc) (Nat.not_lt.mpr h)

/-- The characters of an escape and what it denotes: behind the first come only bare ones; and all of them
make at most one character, or the escape leaves the one there is as it is, or brings none like it. -/
structure Escapes (c : Char) (u d : Text) : Prop where
  bare : Bare '\'' u
  denoted : d.length ≤ 1 ∨ (opens c = false ∧ u = [] ∧ d = ['\\', c]) ∨ (u = [] ∧ c ∉ d)

theorem TakesBare.exists_escapes (h : TakesBare t d n) (c : Char) :
    ∃ u r, t = u ++ r ∧ n = u.length + 1 ∧ Escapes c u d := by
  obtain ⟨u, r, rfl, rfl, hu, hd⟩ := h
  exact ⟨u, r, rfl, rfl, hu, .inl hd⟩

theorem meaning?_spec (h : meaning? named (c :: t) = some (d, n)) :
    ∃ u r, t = u ++ r ∧ n = u.length + 1 ∧ Escapes c u d := by
  have halone : d.length ≤ 1 → n = 1 → ∃ u r, t = u ++ r ∧ n = u.length + 1 ∧ Escapes c u d := by
    rintro hd rfl
    exact ⟨[], t, rfl, rfl, bare_nil _, .inl hd⟩
  rw [meaning?] at h
  split at h
  · cases h
    exact halone (Nat.le_refl 1) rfl
  · next hsingle =>
    split_ifs at h with hfeed hoctal hx hu hU hN hascii
    · cases h
      exact halone (Nat.zero_le 1) rfl
    · exact (byOctal?_spec hoctal h).exists_escapes c
    · exact (byDigits?_spec h).exists_escapes c
    · exact (byDigits?_spec h).exists_escapes c
    · exact (byDigits?_spec h).exists_escapes c
    · exact (byName?_spec h).exists_escapes c
    · cases h
      have hopens : opens c = false := by
        simp [opens, hsingle, hfeed, hoctal, hx, hu, hU, hN, hascii]
      exact ⟨[], t, rfl, rfl, bare_nil _, .inr (.inl ⟨hopens, rfl, rfl⟩)⟩
    · cases h
      exact ⟨[], t, rfl, rfl, bare_nil _, .inr (.inr ⟨rfl, not_mem_spelled (Nat.le_of_not_lt hascii)⟩)⟩

/-! ## Strings whose backslashes stay -/

theorem escaped_quote (k : Text) : escaped ('\'' :: k) = '\\' :: '\'' :: escaped k := rfl

theorem escaped_cons (h : c ≠ '\'') (k : Text) : escaped (c :: k) = c :: escaped k := by
  rw [escaped, Text.replaceChar, List.flatMap_cons, if_neg h]
  rfl

/-- What stands bare in an escaped string stands so in the string. -/
theorem exists_of_escaped_eq (hu : Bare '\'' u) (h : escaped k = u ++ r) :
    ∃ k', k = u ++ k' ∧ r = escaped k' := by
  induction u generalizing k with
  | nil => exact ⟨k, rfl, h.symm⟩
  | cons x u ih =>
      obtain ⟨⟨hslash, hquote⟩, hrest⟩ := List.forall_mem_cons.mp hu
      cases k with
      | nil => cases h
      | cons c k =>
          by_cases hc : c = '\''
          · subst hc
            rw [escaped_quote] at h
            exact absurd (List.cons.inj h).1.symm hslash
          · rw [escaped_cons hc] at h
            obtain ⟨rfl, htail⟩ := List.cons.inj h
            obtain ⟨k', rfl, hr⟩ := ih hrest htail
            exact ⟨k', rfl, hr⟩

theorem inert_nil : Inert [] := nofun

theorem inert_cons_iff (h : c ≠ '\\') : Inert (c :: k) ↔ Inert k := by
  constructor
  · intro hk i hi
    exact hk (i + 1) hi
  · intro hk i hi
    cases i with
    | zero => exact absurd (Option.some.inj hi) h
    | succ i => exact hk i hi

theorem inert_backslash_iff : Inert ('\\' :: c :: k) ↔ opens c = false ∧ Inert k := by
  constructor
  · intro hk
    obtain ⟨d, hd, hopens⟩ := hk 0 rfl
    obtain rfl := Option.some.inj hd
    exact ⟨hopens, fun i hi ↦ hk (i + 2) hi⟩
  · rintro ⟨hopens, hk⟩ i hi
    match i with
    | 0 => exact ⟨c, rfl, hopens⟩
    | 1 =>
      obtain rfl := Option.some.inj hi
      cases hopens
    | i + 2 => exact hk i hi

theorem not_inert_backslash : ¬ Inert ['\\'] := by
  intro h
  obtain ⟨c, hc, -⟩ := h 0 rfl
  cases hc

/-- A string all of whose backslashes stay is denoted with its quotes escaped. -/
theorem denotes_escaped (named : Text → Option Char) (hk : Inert k) : Denotes named '\'' (escaped k) k := by
  induction hlength : k.length using Nat.strongRecOn generalizing k with
  | _ n ih =>
    subst hlength
    match k with
    | [] => exact .nil
    | c :: k =>
      by_cases hquote : c = '\''
      · subst hquote
        have hpiece : Denotes named '\'' ['\\', '\''] ['\''] := .escape (bare_nil _) fun _ ↦ rfl
        exact hpiece.append (ih _ (Nat.lt_succ_self _) ((inert_cons_iff (by decide)).mp hk) rfl)
      · rw [escaped_cons hquote]
        by_cases hslash : c = '\\'
        · subst hslash
          match k with
          | [] => exact absurd hk not_inert_backslash
          | d :: k =>
            obtain ⟨hopens, hk⟩ := inert_backslash_iff.mp hk
            have hd : d ≠ '\'' := by
              rintro rfl
              cases hopens
            have hpiece : Denotes named '\'' ['\\', d] ['\\', d] :=
              .escape (bare_nil _) fun r ↦ meaning?_of_not_opens hopens r
            rw [escaped_cons hd]
            exact hpiece.append (ih _ (Nat.lt_succ_of_lt (Nat.lt_succ_self _)) hk rfl)
        · have hpiece : Denotes named '\'' [c] [c] := .plain hslash hquote
          exact hpiece.append (ih _ (Nat.lt_succ_self _) ((inert_cons_iff hslash).mp hk) rfl)

theorem map_append_eq_some_iff {o : Option (Text × Text)} :
    (o.map fun x ↦ (u ++ x.1, x.2)) = some (u ++ b, r) ↔ o = some (b, r) := by
  rw [Option.map_eq_some_iff]
  constructor
  · rintro ⟨x, hx, heq⟩
    obtain ⟨hbody, rfl⟩ := Prod.mk.inj heq
    rw [← List.append_cancel_left hbody]
    exact hx
  · intro h
    exact ⟨_, h, rfl⟩

/-- Whether a literal in which only the quotes of a string are escaped ends where it should, and denotes
another string. -/
structure ReadAs (named : Text → Option Char) (rest k s : Text) : Prop where
  cut : cut '\'' (escaped k ++ '\'' :: rest) = some (escaped k, rest)
  replaced : replaced? named 0 (escaped k) = some s

namespace ReadAs

variable {rest : Text}

/-- A character that is no backslash is read as itself. -/
theorem cons (hslash : c ≠ '\\') (h : ReadAs named rest (c :: k) s) :
    ∃ s', ReadAs named rest k s' ∧ s = c :: s' := by
  obtain ⟨hcut, hreplaced⟩ := h
  by_cases hquote : c = '\''
  · subst hquote
    rw [escaped_quote, replaced?_escape] at hreplaced
    obtain ⟨s', hs', rfl⟩ := Option.map_eq_some_iff.mp hreplaced
    exact ⟨s', ⟨map_append_eq_some_iff (u := ['\\', '\'']).mp hcut, hs'⟩, rfl⟩
  · rw [escaped_cons hquote, replaced?_plain hslash] at hreplaced
    rw [escaped_cons hquote, List.cons_append, cut_plain hslash hquote] at hcut
    obtain ⟨s', hs', rfl⟩ := Option.map_eq_some_iff.mp hreplaced
    exact ⟨s', ⟨map_append_eq_some_iff (u := [c]).mp hcut, hs'⟩, rfl⟩

/-- A backslash is read as an escape with some characters behind it. There are some, and the first is no
quote: the quote would be closed by the backslash that escapes it. -/
theorem backslash (h : ReadAs named rest ('\\' :: k) s) :
    ∃ c u k' d s', k = c :: u ++ k' ∧ Escapes c u d ∧ ReadAs named rest k' s' ∧ s = d ++ s' := by
  obtain ⟨hcut, hreplaced⟩ := h
  cases k with
  | nil =>
      obtain ⟨x, -, hx⟩ := Option.map_eq_some_iff.mp hcut
      cases (Prod.mk.inj hx).1
  | cons c k =>
      by_cases hquote : c = '\''
      · subst hquote
        cases (Prod.mk.inj (Option.some.inj hcut)).1
      · rw [escaped_cons (by decide), escaped_cons hquote] at hreplaced hcut
        rw [replaced?_escape] at hreplaced
        obtain ⟨⟨d, n⟩, hmeaning, hreplaced⟩ := Option.bind_eq_some_iff.mp hreplaced
        obtain ⟨u, r, hr, rfl, hescapes⟩ := meaning?_spec hmeaning
        obtain ⟨k, rfl, rfl⟩ := exists_of_escaped_eq hescapes.bare hr
        obtain ⟨s', hs', rfl⟩ := Option.map_eq_some_iff.mp hreplaced
        have hbehind : Jinja.cut '\'' (escaped (u ++ k) ++ '\'' :: rest) = some (escaped (u ++ k), rest) :=
          map_append_eq_some_iff (u := ['\\', c]).mp hcut
        rw [hr, List.append_assoc, cut_bare hescapes.bare] at hbehind
        rw [hr] at hs'
        exact ⟨c, u, k, d, s', rfl, hescapes,
          ⟨map_append_eq_some_iff.mp hbehind, (replaced?_skipped (c :: u) _).symm.trans hs'⟩, rfl⟩

end ReadAs

/-- Where nothing can stand in front of what comes behind a piece, the piece denotes what it is made from and
no more. -/
theorem isPrefix_of_append_eq {piece : Text} (hrest : ∀ p, s = p ++ k → p = [] ∧ Inert k)
    (h : d ++ s = piece ++ k) : piece <+: d ∧ (piece = d → Inert k) := by
  rcases List.append_eq_append_iff.mp h with ⟨more, hpiece, hs⟩ | ⟨more, hd, hk⟩
  · obtain ⟨rfl, hinert⟩ := hrest more hs
    rw [List.append_nil] at hpiece
    exact ⟨hpiece ▸ List.prefix_rfl, fun _ ↦ hinert⟩
  · refine ⟨⟨more, hd.symm⟩, fun hsame ↦ ?_⟩
    rw [hsame, List.self_eq_append_right] at hd
    rw [hd, List.nil_append] at hk
    exact (hrest [] hk.symm).2

/-- An escape that denotes all that it is made from leaves its backslash, and nothing stands in front. -/
theorem Escapes.of_isPrefix (h : Escapes c u d) (hd : p ++ '\\' :: c :: u <+: d) :
    p = [] ∧ u = [] ∧ opens c = false ∧ d = ['\\', c] := by
  rcases h.denoted with hshort | ⟨hopens, rfl, rfl⟩ | ⟨rfl, hnone⟩
  · have hlength := hd.length_le
    simp only [List.length_append, List.length_cons] at hlength
    omega
  · have hlength := hd.length_le
    simp only [List.length_append, List.length_cons, List.length_nil] at hlength
    obtain rfl := List.length_eq_zero_iff.mp (show p.length = 0 by omega)
    exact ⟨rfl, rfl, hopens, rfl⟩
  · refine absurd (hd.subset ?_) hnone
    simp

/-- A string that its own literal denotes has no backslash that does not stay. An escape brings fewer
characters than it takes, or others. What it falls short by would have to stand in front of what comes behind
it, so a text in front of the string is allowed for, and there is none. -/
theorem ReadAs.inert {rest : Text} (h : ReadAs named rest k (p ++ k)) : p = [] ∧ Inert k := by
  induction hlength : k.length using Nat.strongRecOn generalizing k p with
  | _ n ih =>
    subst hlength
    cases k with
    | nil =>
        have hnil : some [] = some (p ++ []) := h.replaced
        rw [List.append_nil] at hnil
        exact ⟨(Option.some.inj hnil).symm, inert_nil⟩
    | cons c k =>
        by_cases hslash : c = '\\'
        · subst hslash
          obtain ⟨c, u, k, d, s, rfl, hescapes, hread, hsame⟩ := h.backslash
          have hshorter : k.length < ('\\' :: (c :: u ++ k)).length := by
            simp only [List.length_cons, List.length_append]
            omega
          have hpiece : d ++ s = (p ++ '\\' :: c :: u) ++ k := by
            rw [← hsame, List.append_assoc]
            rfl
          obtain ⟨hlead, hinert⟩ := isPrefix_of_append_eq
            (fun p hp ↦ ih _ hshorter (hp ▸ hread) rfl) hpiece
          obtain ⟨rfl, rfl, hopens, rfl⟩ := hescapes.of_isPrefix hlead
          exact ⟨rfl, inert_backslash_iff.mpr ⟨hopens, hinert rfl⟩⟩
        · obtain ⟨s, hread, hsame⟩ := h.cons hslash
          have hpiece : [c] ++ s = (p ++ [c]) ++ k := by
            rw [List.append_assoc]
            exact hsame.symm
          obtain ⟨hlead, hinert⟩ := isPrefix_of_append_eq
            (fun p hp ↦ ih _ (Nat.lt_succ_self _) (hp ▸ hread) rfl) hpiece
          have hshort := hlead.length_le
          rw [List.length_append, List.length_singleton] at hshort
          obtain rfl := List.length_eq_zero_iff.mp (show p.length = 0 by omega)
          exact ⟨rfl, (inert_cons_iff hslash).mpr (hinert rfl)⟩

/-- A literal in which only the quotes are escaped ends where it should and denotes its string exactly where
every backslash of the string stays. -/
theorem literal?_singleQuoted_iff (named : Text → Option Char) (k r : Text) :
    literal? named (singleQuoted k ++ r) = some (k, r) ↔ Inert k := by
  have hliteral : singleQuoted k ++ r = '\'' :: (escaped k ++ '\'' :: r) := by
    rw [singleQuoted, List.append_assoc]
    rfl
  rw [hliteral]
  constructor
  · intro h
    rw [literal?, if_pos (.inl rfl)] at h
    obtain ⟨⟨body, rest⟩, hcut, h⟩ := Option.bind_eq_some_iff.mp h
    obtain ⟨s, hs, hx⟩ := Option.map_eq_some_iff.mp h
    obtain ⟨rfl, rfl⟩ := Prod.mk.inj hx
    obtain rfl := List.append_cancel_right (cut_spec hcut)
    exact (ReadAs.inert (p := []) ⟨hcut, hs⟩).2
  · intro hk
    exact literal?_of_denotes (.inl rfl) (denotes_escaped named hk) r

end Saltern.Jinja
