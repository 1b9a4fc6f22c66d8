import Saltern.Proofs.Brinefile.Spelling
import Saltern.Proofs.Yaml.ImplicitType

/-!
# Forms that pass for texts

Fractions that end at their point and points in time are none of the numbers for which a scalar is quoted. What
they look like where a scalar may not be plain: a colon has a digit behind it, and no space stands last.
-/

namespace Saltern

/-- A text is cut in one way at a character that is not before the cut. -/
theorem Text.cut_unique {c : Char} {a b a' b' : Text} (h : a ++ c :: b = a' ++ c :: b') (ha : c ∉ a) (ha' : c ∉ a') :
    a = a' ∧ b = b' := by
  have hcut : Text.cutAt c (a ++ c :: b) = some (a, b) := Text.cutAt_eq_some_iff.mpr ⟨rfl, ha⟩
  rw [h, Text.cutAt_eq_some_iff.mpr ⟨rfl, ha'⟩] at hcut
  obtain ⟨rfl, rfl⟩ := Prod.mk.inj (Option.some.inj hcut)
  exact ⟨rfl, rfl⟩

namespace Yaml.Implicit

open Pattern

variable {t u v w x y r s : Text} {c d : Char}

/-! ## Numbers that begin with a digit -/

/-- What begins with a digit has no sign. -/
theorem eq_nil_of_sign (hs : Matches sign s) (h : (s ++ u).head? = some d) (hd : d.isDigit = true) : s = [] := by
  rcases matches_opt_iff.mp hs with rfl | hs
  · rfl
  · obtain ⟨c, hc, rfl⟩ := matches_anyOf_iff.mp hs
    obtain rfl := Option.some.inj h
    have hsigns : ∀ c ∈ "-+".toList, c.isDigit = false := by simp
    exact absurd hd (by rw [hsigns c hc]; decide)

/-- A number that begins with a digit is a decimal one, or has no minus sign at all, and then it has no point
unless it is one to the base sixty. -/
theorem number_cases (h : Matches Number.any t) (ht : t.head? = some d) (hd : d.isDigit = true) :
    (∃ w f x, Matches whole w ∧ Matches (opt Number.fraction) f ∧ Matches (opt exponent) x ∧
        t = w ++ f ++ x) ∨
      '-' ∉ t ∧ ('.' ∈ t → ':' ∈ t) := by
  obtain ⟨a, ha, h⟩ := matches_choice_iff.mp h
  -- Of a signed form only the part behind the sign is left.
  have hunsigned : ∀ {as : List Pattern}, Matches (chain (sign :: as)) t → Matches (chain as) t := by
    intro as h
    obtain ⟨s, u, hs, hu, rfl⟩ := matches_chain_cons_iff.mp h
    obtain rfl := eq_nil_of_sign hs ht hd
    exact hu
  have hplain : ∀ {b : Pattern}, Matches b t → b.avoids '-' = true → b.avoids '.' = true →
      '-' ∉ t ∧ ('.' ∈ t → ':' ∈ t) :=
    fun h hminus hpoint ↦ ⟨h.not_mem hminus, fun hm ↦ absurd hm (h.not_mem hpoint)⟩
  have hnopoint : ∀ u, t ≠ '.' :: u := by
    rintro u rfl
    obtain rfl := Option.some.inj ht
    exact absurd hd (by decide)
  simp only [List.mem_cons, List.not_mem_nil, or_false] at ha
  rcases ha with rfl | rfl | rfl | rfl | rfl | rfl | rfl
  · obtain ⟨m, x, hm, hx, rfl⟩ := matches_chain_cons_iff.mp (hunsigned h)
    rcases matches_alt_iff.mp hm with hm | hm
    · obtain ⟨w, f, hw, hf, rfl⟩ := matches_seq_iff.mp hm
      exact .inl ⟨w, f, x, hw, hf, hx, rfl⟩
    · obtain ⟨p, f, hp, -, rfl⟩ := matches_seq_iff.mp hm
      obtain rfl := matches_char_iff.mp hp
      exact absurd rfl (hnopoint _)
  · exact .inr (hplain (hunsigned h) (by decide) (by decide))
  · exact .inr (hplain (hunsigned h) (by decide) (by decide))
  · exact .inr (hplain (hunsigned h) (by decide) (by decide))
  · refine .inr ⟨(hunsigned h).not_mem (by decide), fun _ ↦ ?_⟩
    obtain ⟨w, t₁, -, h₁, rfl⟩ := matches_chain_cons_iff.mp (hunsigned h)
    obtain ⟨x, f, hx, -, rfl⟩ := matches_chain_cons_iff.mp h₁
    obtain ⟨y, z, hy, -, rfl⟩ := matches_seq_iff.mp hx
    obtain ⟨p, t₂, hp, -, rfl⟩ := matches_chain_cons_iff.mp hy
    obtain rfl := matches_char_iff.mp hp
    simp
  · obtain ⟨p, t₁, hp, -, rfl⟩ := matches_chain_cons_iff.mp (hunsigned h)
    obtain rfl := matches_char_iff.mp hp
    exact absurd rfl (hnopoint _)
  · obtain ⟨p, t₁, hp, -, rfl⟩ := matches_seq_iff.mp h
    obtain rfl := matches_char_iff.mp hp
    exact absurd rfl (hnopoint _)

theorem head?_of_whole (h : Matches whole w) (u : Text) : ∃ d, (w ++ u).head? = some d ∧ d.isDigit = true := by
  obtain ⟨p, r, hp, -, rfl⟩ := matches_seq_iff.mp h
  obtain ⟨d, hd, rfl⟩ := matches_one_iff.mp hp
  exact ⟨d, rfl, hd⟩

/-! ## Fractions that end at their point -/

theorem exists_of_openFraction (h : Matches openFraction t) :
    ∃ w r, Matches whole w ∧ (∀ c ∈ r.head?, c.isDigit = false) ∧ t = w ++ '.' :: r := by
  obtain ⟨w, t₁, hw, h₁, rfl⟩ := matches_chain_cons_iff.mp h
  obtain ⟨p, t₂, hp, h₂, rfl⟩ := matches_chain_cons_iff.mp h₁
  obtain ⟨f, x, hf, hx, rfl⟩ := matches_chain_cons_iff.mp h₂
  obtain rfl := matches_char_iff.mp hp
  refine ⟨w, f ++ x, hw, ?_, rfl⟩
  rcases matches_opt_iff.mp hf with rfl | hf
  · rcases matches_opt_iff.mp hx with rfl | hx
    · nofun
    · obtain ⟨e, t₃, he, -, rfl⟩ := matches_chain_cons_iff.mp hx
      obtain ⟨c, hc, rfl⟩ := matches_anyOf_iff.mp he
      have hletters : ∀ c ∈ "eE".toList, c.isDigit = false := by simp
      rintro d ⟨rfl⟩
      exact hletters c hc
  · obtain ⟨p, t₃, hp, -, rfl⟩ := matches_seq_iff.mp hf
    obtain rfl := matches_char_iff.mp hp
    rintro d ⟨rfl⟩
    rfl

theorem not_number_of_openFraction (h : Matches openFraction t) : ¬ Matches Number.any t := by
  intro hn
  have hcolon : ':' ∉ t := h.not_mem (by decide)
  obtain ⟨w, r, hw, hr, rfl⟩ := exists_of_openFraction h
  obtain ⟨d, ht, hd⟩ := head?_of_whole hw ('.' :: r)
  have hpoint : '.' ∈ w ++ '.' :: r := by simp
  obtain ⟨w', f, x, hw', hf, hx, hcut⟩ | ⟨-, hsixty⟩ := number_cases hn ht hd
  · rcases matches_opt_iff.mp hf with rfl | hf
    · rw [hcut, List.append_nil, List.mem_append] at hpoint
      exact hpoint.elim (hw'.not_mem (by decide)) (hx.not_mem (by decide))
    · obtain ⟨p, v, hp, hv, rfl⟩ := matches_seq_iff.mp hf
      obtain rfl := matches_char_iff.mp hp
      rw [List.append_assoc, List.append_assoc] at hcut
      obtain ⟨-, rfl⟩ := Text.cut_unique hcut (hw.not_mem (by decide)) (hw'.not_mem (by decide))
      obtain ⟨c, hc, hdigit⟩ := head?_of_whole hv x
      exact absurd hdigit (by rw [hr c hc]; decide)
  · exact hcolon (hsixty hpoint)

/-! ## Points in time -/

theorem exists_of_timestamp (h : Matches timestamp t) :
    ∃ y r, t = y ++ '-' :: r ∧ y ≠ [] ∧ ∀ c ∈ y, c.isDigit = true := by
  obtain ⟨y, v, hy, hv, rfl⟩ := matches_seq_iff.mp h
  obtain ⟨r, rfl⟩ : ∃ r, v = '-' :: r := by
    rcases matches_alt_iff.mp hv with hv | hv <;>
      obtain ⟨p, r, hp, -, rfl⟩ := matches_chain_cons_iff.mp hv <;>
      exact ⟨r, by rw [matches_char_iff.mp hp]; rfl⟩
  refine ⟨y, r, rfl, ?_, hy.forall_mem (by simp [year, chain, Only, digit])⟩
  rintro rfl
  exact absurd (matchesNil_iff.mpr hy) (by decide)

theorem not_number_of_timestamp (h : Matches timestamp t) : ¬ Matches Number.any t := by
  intro hn
  obtain ⟨y, r, rfl, hne, hy⟩ := exists_of_timestamp h
  have hhead : (y ++ '-' :: r).head? = some (y.head hne) := by
    rw [List.head?_append_of_ne_nil _ hne, List.head?_eq_some_head hne]
  have hyminus : '-' ∉ y := fun hm ↦ absurd (hy _ hm) (by decide)
  have hminus : '-' ∈ y ++ '-' :: r := by simp
  obtain ⟨w, f, x, hw, hf, hx, hcut⟩ | ⟨hno, -⟩ := number_cases hn hhead (hy _ (List.head_mem hne))
  · rw [hcut] at hminus
    have hwf : '-' ∉ w ++ f := by
      rw [List.mem_append, not_or]
      exact ⟨hw.not_mem (by decide), hf.not_mem (by decide)⟩
    rcases matches_opt_iff.mp hx with rfl | hx
    · exact hwf (by simpa using hminus)
    · -- A minus sign can only be the exponent's, and there a letter stands before it.
      obtain ⟨e, t₁, he, h₁, rfl⟩ := matches_chain_cons_iff.mp hx
      obtain ⟨s, n, hs, hn, rfl⟩ := matches_chain_cons_iff.mp h₁
      obtain ⟨c, hc, rfl⟩ := matches_anyOf_iff.mp he
      have hletters : ∀ c ∈ "eE".toList, c.isDigit = false ∧ c ≠ '-' := by simp
      have hfront : '-' ∉ w ++ f ++ [c] := by
        rw [List.mem_append, List.mem_singleton, not_or]
        exact ⟨hwf, (hletters c hc).2.symm⟩
      have hsign : s = ['-'] := by
        have hsn : '-' ∈ s ++ n := by
          rw [← List.append_assoc, List.mem_append] at hminus
          exact hminus.resolve_left hfront
        have hs' : '-' ∈ s := (List.mem_append.mp hsn).resolve_right (hn.not_mem (by decide))
        rcases matches_opt_iff.mp hs with rfl | hs
        · cases hs'
        · obtain ⟨d, -, rfl⟩ := matches_anyOf_iff.mp hs
          rw [List.mem_singleton.mp hs']
      rw [hsign, ← List.append_assoc] at hcut
      obtain ⟨rfl, -⟩ := Text.cut_unique hcut hyminus hfront
      exact absurd (hy c (by simp)) (by rw [(hletters c hc).1]; decide)
  · exact hno hminus

/-! ## Tidy texts -/

/-- A text in which every colon has a digit behind it, and which does not end in a space. -/
structure Tidy (t : Text) : Prop where
  colon : ∀ a b, t = a ++ ':' :: b → ∃ d ∈ b.head?, d.isDigit = true
  last : t.getLast? ≠ some ' '

theorem Tidy.of_matches {a : Pattern} (h : Matches a t) (hspace : a.avoids ' ' = true)
    (hcolon : a.avoids ':' = true) : Tidy t where
  colon := by
    rintro u v rfl
    exact absurd (by simp) (h.not_mem hcolon)
  last := fun hlast ↦ h.not_mem hspace (List.mem_of_getLast? hlast)

theorem colon_append (hu : ∀ a b, u = a ++ ':' :: b → ∃ d ∈ b.head?, d.isDigit = true) (hv : Tidy v) :
    ∀ a b, u ++ v = a ++ ':' :: b → ∃ d ∈ b.head?, d.isDigit = true := by
  intro a b h
  obtain ⟨a', rfl, hb⟩ | ⟨b', rfl, hb⟩ := List.append_eq_append_iff.mp h
  · exact hv.colon a' b hb
  · cases b' with
    | nil => exact hv.colon [] b hb.symm
    | cons c b' =>
        obtain ⟨rfl, rfl⟩ := List.cons.inj hb
        obtain ⟨d, hd, hdigit⟩ := hu a b' rfl
        obtain ⟨r, rfl⟩ := List.head?_eq_some_iff.mp hd
        exact ⟨d, rfl, hdigit⟩

theorem Tidy.append (hu : Tidy u) (hv : Tidy v) : Tidy (u ++ v) where
  colon := colon_append hu.colon hv
  last := by
    cases v with
    | nil => simpa using hu.last
    | cons c v => simpa using hv.last

/-- How a text ends that something tidy is put behind makes no difference. -/
theorem Tidy.behind (hv : Tidy v) (hu : ':' ∉ u) (hne : v ≠ []) : Tidy (u ++ v) where
  colon := by
    refine colon_append ?_ hv
    rintro a b rfl
    simp at hu
  last := by
    rw [List.getLast?_append_of_ne_nil _ hne]
    exact hv.last

theorem Tidy.not_infix (h : Tidy t) : ¬ [':', ' '] <:+: t := by
  rintro ⟨a, b, rfl⟩
  obtain ⟨d, hd, hdigit⟩ := h.colon a (' ' :: b) (by simp)
  obtain rfl := Option.some.inj hd
  cases hdigit

theorem tidy_sixtieth (h : Matches sixtieth t) : Tidy t ∧ t ≠ [] := by
  obtain ⟨p, t₁, hp, h₁, rfl⟩ := matches_chain_cons_iff.mp h
  obtain ⟨a, b, ha, hb, rfl⟩ := matches_chain_cons_iff.mp h₁
  obtain rfl := matches_char_iff.mp hp
  obtain ⟨c, hc, rfl⟩ := matches_one_iff.mp ha
  have hdigits : Tidy ([c] ++ b) := .of_matches h₁ (by decide) (by decide)
  refine ⟨⟨fun u v huv ↦ ?_, by simpa using hdigits.last⟩, List.cons_ne_nil _ _⟩
  cases u with
  | nil =>
      obtain ⟨-, rfl⟩ := List.cons.inj huv
      exact ⟨c, rfl, hc⟩
  | cons d u => exact hdigits.colon u v (List.cons.inj huv).2

theorem tidy_clock (h : Matches clock t) : Tidy t ∧ t ≠ [] := by
  obtain ⟨n, t₁, hn, h₁, rfl⟩ := matches_chain_cons_iff.mp h
  obtain ⟨x, t₂, hx, h₂, rfl⟩ := matches_chain_cons_iff.mp h₁
  obtain ⟨y, f, hy, hf, rfl⟩ := matches_chain_cons_iff.mp h₂
  have hn' : Tidy n := .of_matches hn (by decide) (by decide)
  have hf' : Tidy f := .of_matches (a := opt (.seq (char '.') (.star digit))) hf (by decide) (by decide)
  refine ⟨hn'.append ((tidy_sixtieth hx).1.append ((tidy_sixtieth hy).1.append hf')), ?_⟩
  simp [(tidy_sixtieth hx).2]

theorem tidy_zone (h : Matches zone t) : Tidy t := by
  obtain ⟨b, z, hb, hz, rfl⟩ := matches_seq_iff.mp h
  suffices hzone : Tidy z ∧ z ≠ [] from hzone.1.behind (hb.not_mem (by decide)) hzone.2
  rcases matches_alt_iff.mp hz with hz | hz
  · refine ⟨.of_matches hz (by decide) (by decide), ?_⟩
    rw [matches_char_iff.mp hz]
    exact List.cons_ne_nil _ _
  · obtain ⟨s, t₁, hs, h₁, rfl⟩ := matches_chain_cons_iff.mp hz
    obtain ⟨n, x, hn, hx, rfl⟩ := matches_chain_cons_iff.mp h₁
    have hs' : Tidy s := .of_matches hs (by decide) (by decide)
    have hn' : Tidy n := .of_matches hn (by decide) (by decide)
    have hx' : Tidy x := by
      rcases matches_opt_iff.mp hx with rfl | hx
      · exact .of_matches .empty rfl rfl
      · exact (tidy_sixtieth hx).1
    refine ⟨hs'.append (hn'.append hx'), ?_⟩
    obtain ⟨c, -, rfl⟩ := matches_anyOf_iff.mp hs
    exact List.cons_ne_nil c _

theorem tidy_timestamp (h : Matches timestamp t) : Tidy t := by
  obtain ⟨y, v, hy, hv, rfl⟩ := matches_seq_iff.mp h
  refine .append (.of_matches hy (by decide) (by decide)) ?_
  rcases matches_alt_iff.mp hv with hv | hv
  · exact .of_matches hv (by decide) (by decide)
  · obtain ⟨p, t₁, hp, h₁, rfl⟩ := matches_chain_cons_iff.mp hv
    obtain ⟨m, t₂, hm, h₂, rfl⟩ := matches_chain_cons_iff.mp h₁
    obtain ⟨q, t₃, hq, h₃, rfl⟩ := matches_chain_cons_iff.mp h₂
    obtain ⟨d, t₄, hd, h₄, rfl⟩ := matches_chain_cons_iff.mp h₃
    obtain ⟨g, t₅, hg, h₅, rfl⟩ := matches_chain_cons_iff.mp h₄
    obtain ⟨k, z, hk, hz, rfl⟩ := matches_chain_cons_iff.mp h₅
    have hz' : Tidy z := by
      rcases matches_opt_iff.mp hz with rfl | hz
      · exact .of_matches .empty rfl rfl
      · exact tidy_zone hz
    obtain ⟨hk', hne⟩ := tidy_clock hk
    have hgk : Tidy (g ++ (k ++ z)) := (hk'.append hz').behind (hg.not_mem (by decide)) (by simp [hne])
    exact .append (.of_matches hp (by decide) (by decide)) (.append (.of_matches hm (by decide) (by decide))
      (.append (.of_matches hq (by decide) (by decide)) (.append (.of_matches hd (by decide) (by decide)) hgk)))

end Yaml.Implicit

end Saltern
