import Saltern.Proofs.Brinefile.Structure

/-!
# Formatting again and again

A formatted text may still change when it is formatted again: gaps are closed that were not seen
before, and each pass with line feeds takes a carriage return from the end of every line that has
one. The gaps are gone after one pass, and the returns are finitely many.
-/

namespace Saltern

open Text

namespace Section

variable {s s' : Section} {e : LineEnding}

/-- A lone equals sign is never printed among items. -/
theorem respellContent_ne_sign {k : Keyword} (hk : k.holdsItems = true) (t : Text) :
    k.respellContent t ≠ ['='] := by
  intro h
  by_cases hp : t.head? = some '%'
  · rw [Keyword.respellContent_of_percent hp] at h
    simp [h] at hp
  · rw [Keyword.respellContent_of_ne_percent hp] at h
    have hagain : k.respell ['='] = ['='] := by rw [← h, k.respell_respell]
    have hnil : k.respell ['='] = [] := by
      rw [Keyword.respell, if_pos hk]
      rfl
    cases hnil.symm.trans hagain

/-- So a section that was printed and read again has no gaps that are doubled by one. -/
theorem not_doublesGap_reread (h : s.IsReread e s') : ¬ s'.DoublesGap := by
  rintro ⟨hitems, front, gap, sign, back, hlines, -, hsign, -⟩
  have hmem : sign ∈ s'.entries := by
    rw [entries, hlines]
    exact List.mem_filter.mpr ⟨by simp, by simpa using kind_of_content_eq_sign hsign⟩
  have hvalue : ['='] ∈ s'.values := hsign ▸ List.mem_map_of_mem hmem
  rw [values_reread h] at hvalue
  obtain ⟨v, -, hv⟩ := List.mem_map.mp (List.mem_filter.mp hvalue).1
  exact respellContent_ne_sign (h.keyword ▸ hitems) v hv

end Section

namespace Brinefile

variable {b b' : Brinefile} {t t' : Text} {p : Bool} {n : Nat}

/-- What a text becomes when it is formatted a number of times. -/
def formatted (preserveNewlines : Bool) : Nat → Text → Except Fault Text
  | 0, t => .ok t
  | n + 1, t =>
    match format preserveNewlines t with
    | .error e => .error e
    | .ok f => formatted preserveNewlines n f.text

theorem formatted_succ {f : Formatted} (h : format p t = .ok f) : formatted p (n + 1) t = formatted p n f.text := by
  rw [formatted, h]

/-- A text that formatting leaves as it is. -/
def IsSettled (preserveNewlines : Bool) (t : Text) : Prop := format preserveNewlines t = .ok ⟨t, false⟩

theorem isSettled_iff (hb : ofText t = .ok b) : IsSettled p t ↔ (ending p t).joinLines b.printLines = t := by
  rw [IsSettled, format_of_ok hb, Except.ok.injEq, Formatted.mk.injEq]
  exact ⟨And.left, fun h ↦ ⟨h, by simp [h]⟩⟩

/-! ## One pass -/

/-- After one pass no gap is doubled by a lone equals sign. -/
theorem not_doublesGap_of_isReread {e : LineEnding} (hb : ofText t = .ok b) (hr : IsReread e b b') :
    ∀ s ∈ b'.sections, ¬ s.DoublesGap := by
  have hsections := (hr.forall₂_sections hb).flip.imp fun s' s h ↦
    And.intro (Section.not_doublesGap_reread h) h
  exact ((List.forall₂_and_left _ _).mp hsections).1

/-- The ending stays where no return at the end of a line can be taken for a part of it. -/
theorem ending_joinLines (hb : ofText t = .ok b) (hne : b.printLines ≠ [])
    (h : ending p t = .crlf ∨ ∀ l ∈ b.printLines, l.getLast? ≠ some '\r') :
    ending p ((ending p t).joinLines b.printLines) = ending p t := by
  have hnewline := newline_not_mem_printLines hb
  cases hending : ending p t with
  | crlf =>
      have hp : p = true := by
        by_contra hp
        rw [ending, if_neg hp] at hending
        cases hending
      rw [ending, if_pos hp, LineEnding.prevailing_joinLines_crlf hnewline hne]
  | lf =>
      have hreturn := h.resolve_left (by rw [hending]; decide)
      exact ending_eq_lf fun _ ↦ LineEnding.prevailing_joinLines_lf hnewline hreturn

/-- A formatted text without doubled gaps in its source stays as it is, or is printed with fewer
characters the next time. -/
theorem settled_or_shorter (hb : ofText t = .ok b) (hgaps : ∀ s ∈ b.sections, ¬ s.DoublesGap)
    (hb' : ofText ((ending p t).joinLines b.printLines) = .ok b') (hr : IsReread (ending p t) b b') :
    IsSettled p ((ending p t).joinLines b.printLines) ∨
      b'.printLines.flatten.length < b.printLines.flatten.length := by
  by_cases hkept : ending p t = .crlf ∨ ∀ l ∈ b.printLines, l.getLast? ≠ some '\r'
  · have hlines : ∀ l ∈ b.printLines, (ending p t).reread l = l := by
      intro l hl
      rcases hkept with hcrlf | hreturn
      · rw [hcrlf]
        rfl
      · exact LineEnding.reread_of_ne (hreturn l hl)
    refine .inl ((isSettled_iff hb').mpr ?_)
    exact (joinLines_printed_iff hb hb' hr hlines fun hne ↦ ending_joinLines hb hne hkept).mpr hgaps
  · obtain ⟨hcrlf, hreturn⟩ := not_or.mp hkept
    have hlf : ending p t = .lf := by
      cases hending : ending p t with
      | lf => rfl
      | crlf => exact absurd hending hcrlf
    rw [hlf] at hr
    exact .inr (Nat.lt_of_not_le fun h ↦ hreturn (getLast?_ne_return_of_length_printLines_le hb' hr h))

/-! ## Any number of passes -/

/-- Without doubled gaps, by induction on the number of printed characters. -/
theorem exists_settled_of_not_doublesGap (hb : ofText t = .ok b) (hgaps : ∀ s ∈ b.sections, ¬ s.DoublesGap) :
    ∃ n u, formatted p n t = .ok u ∧ IsSettled p u := by
  induction hlen : b.printLines.flatten.length using Nat.strongRecOn generalizing t b with
  | ind len ih =>
    obtain ⟨b', hb', hr⟩ := ofText_printed hb (ending p t)
    rcases settled_or_shorter hb hgaps hb' hr with hsettled | hshorter
    · exact ⟨1, _, formatted_succ (format_of_ok hb), hsettled⟩
    · obtain ⟨n, u, hu, hsettled⟩ :=
        ih _ (hlen ▸ hshorter) hb' (not_doublesGap_of_isReread hb hr) rfl
      exact ⟨n + 1, u, (formatted_succ (format_of_ok hb)).trans hu, hsettled⟩

/-- A text that can be cut into sections settles when it is formatted often enough. -/
theorem exists_settled (preserveNewlines : Bool) (hb : ofText t = .ok b) :
    ∃ n u, formatted preserveNewlines n t = .ok u ∧ IsSettled preserveNewlines u := by
  obtain ⟨b', hb', hr⟩ := ofText_printed hb (ending preserveNewlines t)
  obtain ⟨n, u, hu, hsettled⟩ :=
    exists_settled_of_not_doublesGap hb' (not_doublesGap_of_isReread hb hr) (p := preserveNewlines)
  exact ⟨n + 1, u, (formatted_succ (format_of_ok hb)).trans hu, hsettled⟩

/-- Each pass takes one return from the end of a line. -/
example : formatted false 2 "%readme\nx\r\r\r\n" = .ok "%readme\nx\r\n" ∧
    formatted false 3 "%readme\nx\r\r\r\n" = .ok "%readme\nx\n" := by decide +kernel

end Brinefile

end Saltern
