import Saltern.Proofs.Text.Edges
import Saltern.Proofs.Text.Units
import Saltern.Text.LowerCase

/-!
# Letter case

In either case an ASCII letter is one with case and is never passed over. So a text in lower case does not
depend on the case of its ASCII letters, and neither does where its blanks are.
-/

namespace Saltern.Text

variable {c : Char} {t u : Text}

/-! ## One character -/

/-- Whether a character is an ASCII letter. -/
def IsAsciiLetter (c : Char) : Prop :=
  0x41 ≤ c.toNat ∧ c.toNat ≤ 0x5A ∨ 0x61 ≤ c.toNat ∧ c.toNat ≤ 0x7A

instance : DecidablePred IsAsciiLetter := fun _ ↦ inferInstanceAs (Decidable (_ ∨ _))

/-- Only a letter has another lower-case form, and it is a letter too. -/
theorem asciiLowerChar_eq_or (c : Char) :
    asciiLowerChar c = c ∨ IsAsciiLetter c ∧ IsAsciiLetter (asciiLowerChar c) ∧
      asciiLowerChar (asciiLowerChar c) = asciiLowerChar c := by
  unfold asciiLowerChar
  split
  · next h =>
    obtain ⟨hA, hZ⟩ := h
    change 0x41 ≤ c.toNat at hA
    change c.toNat ≤ 0x5A at hZ
    have hlower : (Char.ofNat (c.toNat + 32)).toNat = c.toNat + 32 := Units.toNat_ofNat (.inl (by omega))
    refine .inr ⟨.inl ⟨hA, hZ⟩, .inr (by omega), if_neg fun h ↦ ?_⟩
    have hcapital : (Char.ofNat (c.toNat + 32)).toNat ≤ 0x5A := h.2
    omega
  · exact .inl rfl

theorem exists_of_inRanges {n : Nat} {ranges : List (Nat × Nat)} (h : inRanges n ranges = true) :
    ∃ r ∈ ranges, r.1 ≤ n ∧ n ≤ r.2 := by
  simpa [inRanges] using h

theorem isCaseIgnorable_of_isAsciiLetter (h : IsAsciiLetter c) : isCaseIgnorable c = false := by
  have hranges : ∀ r ∈ caseIgnorable, r.2 < 0x41 ∨ 0x5A < r.1 ∧ r.2 < 0x61 ∨ 0x7A < r.1 := by decide +kernel
  rw [isCaseIgnorable, Bool.eq_false_iff]
  intro hin
  obtain ⟨r, hr, hlow, hhigh⟩ := exists_of_inRanges hin
  unfold IsAsciiLetter at h
  have := hranges r hr
  omega

theorem isCased_of_isAsciiLetter (h : IsAsciiLetter c) : isCased c = true := by
  rw [isCased, inRanges, List.any_eq_true]
  rcases h with h | h
  · exact ⟨(0x41, 0x5A), by decide, by simpa using h⟩
  · exact ⟨(0x61, 0x7A), by decide, by simpa using h⟩

theorem isBlank_of_isAsciiLetter (h : IsAsciiLetter c) : isBlank c = false := by
  have hblanks : blanks.all (fun d ↦ ¬ IsAsciiLetter d) = true := by decide
  rw [isBlank, Bool.eq_false_iff]
  intro hc
  have hno := List.all_eq_true.mp hblanks c (List.contains_iff_mem.mp hc)
  exact of_decide_eq_true hno h

/-- What tells no two letters apart does not see the case of a letter. -/
theorem map_asciiLowerChar {α : Type} {f : Char → α} {a : α} (h : ∀ c, IsAsciiLetter c → f c = a) (c : Char) :
    f (asciiLowerChar c) = f c := by
  obtain hc | ⟨hc, hlower, -⟩ := asciiLowerChar_eq_or c
  · rw [hc]
  · rw [h _ hlower, h _ hc]

@[simp] theorem isCaseIgnorable_asciiLowerChar (c : Char) :
    isCaseIgnorable (asciiLowerChar c) = isCaseIgnorable c :=
  map_asciiLowerChar (fun _ ↦ isCaseIgnorable_of_isAsciiLetter) c

@[simp] theorem isCased_asciiLowerChar (c : Char) : isCased (asciiLowerChar c) = isCased c :=
  map_asciiLowerChar (fun _ ↦ isCased_of_isAsciiLetter) c

@[simp] theorem isBlank_asciiLowerChar (c : Char) : isBlank (asciiLowerChar c) = isBlank c :=
  map_asciiLowerChar (fun _ ↦ isBlank_of_isAsciiLetter) c

theorem asciiLowerChar_eq_sigma_iff : asciiLowerChar c = 'Σ' ↔ c = 'Σ' := by
  have h := map_asciiLowerChar (f := (· = 'Σ')) (a := False) (fun d hd ↦ eq_false ?_) c
  · exact iff_of_eq h
  · rintro rfl
    exact absurd hd (by decide)

@[simp] theorem lowerChar_asciiLowerChar (c : Char) : lowerChar (asciiLowerChar c) = lowerChar c := by
  obtain hc | ⟨hc, hlower, hidem⟩ := asciiLowerChar_eq_or c
  · rw [hc]
  · unfold IsAsciiLetter at hc hlower
    rw [lowerChar, lowerChar, if_pos (by omega), if_pos (by omega), hidem]

/-! ## A text -/

theorem startsCased_asciiLower (t : Text) : startsCased (asciiLower t) = startsCased t := by
  induction t with
  | nil => rfl
  | cons c t ih =>
      change (if _ then startsCased (asciiLower t) else _) = _
      rw [isCaseIgnorable_asciiLowerChar, isCased_asciiLowerChar, ih, startsCased]

theorem lowerAfter_asciiLower (afterCased : Bool) (t : Text) :
    lowerAfter afterCased (asciiLower t) = lowerAfter afterCased t := by
  induction t generalizing afterCased with
  | nil => rfl
  | cons c t ih =>
      change lowerAfter afterCased (asciiLowerChar c :: asciiLower t) = _
      simp only [lowerAfter, asciiLowerChar_eq_sigma_iff, startsCased_asciiLower, lowerChar_asciiLowerChar,
        isCaseIgnorable_asciiLowerChar, isCased_asciiLowerChar, ih]

/-- A text in lower case does not depend on the case of its ASCII letters. -/
theorem lower_eq_of_asciiLower_eq (h : asciiLower t = asciiLower u) : lower t = lower u := by
  rw [lower, lower, ← lowerAfter_asciiLower, h, lowerAfter_asciiLower]

theorem dropEndWhile_map {p : Char → Bool} {f : Char → Char} (h : ∀ c, p (f c) = p c) (t : Text) :
    dropEndWhile p (t.map f) = (dropEndWhile p t).map f := by
  induction t with
  | nil => rfl
  | cons c t ih =>
      rw [List.map_cons, dropEndWhile, dropEndWhile, ih, h]
      cases dropEndWhile p t with
      | nil => cases p c <;> rfl
      | cons d r => rfl

/-- Blanks are where they are in either case. -/
theorem trim_asciiLower (t : Text) : trim (asciiLower t) = asciiLower (trim t) := by
  have hblank : isBlank ∘ asciiLowerChar = isBlank := funext isBlank_asciiLowerChar
  rw [trim, asciiLower, List.dropWhile_map, hblank, dropEndWhile_map isBlank_asciiLowerChar]
  rfl

end Saltern.Text
