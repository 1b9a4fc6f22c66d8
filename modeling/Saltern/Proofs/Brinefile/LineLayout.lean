import Saltern.Proofs.Brinefile.EntryLines
import Saltern.Proofs.Brinefile.Spelling
import Saltern.Proofs.Text.LetterCase

/-!
# Differences in layout

Lines that differ in layout only are cut alike: into sections of the same keywords, behind markers in the
same places, whose lines their keyword sees as the same.
-/

namespace Saltern

open Text

/-! ## Lines -/

/-- A stretch of spaces and tabs. -/
def Text.IsSpacing (t : Text) : Prop := ∀ c ∈ t, isSpaceOrTab c = true

/-- A blank line or a comment. -/
def LineKind.IsSkipped (raw : Text) : Prop := ofRaw raw = .blank ∨ ofRaw raw = .comment

instance : DecidablePred IsSpacing := fun t ↦ decidable_of_iff (t.all isSpaceOrTab = true) List.all_eq_true

instance : DecidablePred LineKind.IsSkipped := fun _ ↦ inferInstanceAs (Decidable (_ ∨ _))

namespace Brinefile

/-- The marked name below a line, if `place` is the one above it. -/
def placeBelow (place : Option Text) (raw : Text) : Option Text :=
  if raw.head? = some '%' then some (lower (trim raw.tail)) else place

theorem placeBelow_of_ne {place : Option Text} {raw : Text} (h : raw.head? ≠ some '%') :
    placeBelow place raw = place := if_neg h

/-- Lines that differ in layout only, where `place` is the name on the last marker above them. -/
inductive LineAlike (place : Option Text) : Text → Text → Prop
  | same (raw : Text) : LineAlike place raw raw
  /-- The case of ASCII letters, and spaces and tabs behind the percent sign or at the end. -/
  | marker {name name' a a' b b' : Text} (ha : IsSpacing a) (ha' : IsSpacing a') (hb : IsSpacing b)
      (hb' : IsSpacing b') (hname : asciiLower name = asciiLower name') :
      LineAlike place ('%' :: (a ++ name ++ b)) ('%' :: (a' ++ name' ++ b'))
  | skipped {raw raw' : Text} (hplace : place ≠ some Keyword.readme.name) (h : LineKind.IsSkipped raw)
      (h' : LineKind.IsSkipped raw') : LineAlike place raw raw'
  | entry {t a a' b b' : Text} (hplace : place ≠ some Keyword.readme.name)
      (h : LineKind.ofRaw (a ++ t ++ b) = .entry) (hpercent : (trim t).head? ≠ some '%') (ha : IsSpacing a)
      (ha' : IsSpacing a') (hb : IsSpacing b) (hb' : IsSpacing b') :
      LineAlike place (a ++ t ++ b) (a' ++ t ++ b')
  | readme {t b b' : Text} (hplace : place = some Keyword.readme.name) (h : t.head? ≠ some '%')
      (hb : IsSpacing b) (hb' : IsSpacing b') : LineAlike place (t ++ b) (t ++ b')
  | preamble {raw raw' : Text} (hplace : place = none) (h : raw.head? ≠ some '%')
      (h' : raw'.head? ≠ some '%') : LineAlike place raw raw'

/-- Lines that differ in layout only, one by one, below a marker that names `place`. -/
inductive LinesAlike : Option Text → List Text → List Text → Prop
  | nil (place : Option Text) : LinesAlike place [] []
  | cons {place : Option Text} {raw raw' : Text} {raws raws' : List Text} (h : LineAlike place raw raw')
      (hs : LinesAlike (placeBelow place raw) raws raws') : LinesAlike place (raw :: raws) (raw' :: raws')

end Brinefile

/-- What a section of a keyword sees of a line: a readme all but the spaces at its end, any other section
only what an entry says. -/
def Keyword.sees (k : Keyword) (raw : Text) : Option Text :=
  if k = .readme then some (trimSpacesEnd raw)
  else if LineKind.ofRaw raw = .entry then some (trim raw) else none

section Spacing

variable {t a b raw : Text}

theorem Text.IsSpacing.isBlank (h : IsSpacing a) : ∀ c ∈ a, isBlank c = true :=
  fun c hc ↦ isBlank_of_isSpaceOrTab (h c hc)

theorem Text.trim_spacing (ha : IsSpacing a) (hb : IsSpacing b) : trim (a ++ t ++ b) = trim t :=
  trim_append_append ha.isBlank hb.isBlank

theorem Text.trimSpacesEnd_spacing (hb : IsSpacing b) : trimSpacesEnd (t ++ b) = trimSpacesEnd t := by
  have hreverse : ∀ c ∈ b.reverse, isSpaceOrTab c = true := fun c hc ↦ hb c (List.mem_reverse.mp hc)
  rw [trimSpacesEnd, trimSpacesEnd, dropEndWhile_eq_rdropWhile, dropEndWhile_eq_rdropWhile, List.rdropWhile,
    List.reverse_append, List.dropWhile_append_of_pos hreverse, List.rdropWhile]

theorem Text.head?_append_spacing (h : t.head? ≠ some '%') (hb : IsSpacing b) : (t ++ b).head? ≠ some '%' := by
  cases t with
  | cons c t => exact h
  | nil => exact fun hhead ↦ absurd (hb '%' (List.mem_of_mem_head? hhead)) (by decide)

theorem LineKind.IsSkipped.head?_ne (h : IsSkipped raw) : raw.head? ≠ some '%' := by
  rw [Ne, ← ofRaw_eq_marker_iff]
  rcases h with h | h <;> rw [h] <;> nofun

theorem LineKind.IsSkipped.ne_entry (h : IsSkipped raw) : ofRaw raw ≠ .entry := by
  rcases h with h | h <;> rw [h] <;> nofun

theorem LineKind.ofRaw_spacing_eq_entry_iff (ha : IsSpacing a) (hb : IsSpacing b)
    (hpercent : (trim t).head? ≠ some '%') :
    ofRaw (a ++ t ++ b) = .entry ↔ trim t ≠ [] ∧ (trim t).head? ≠ some '#' := by
  rw [ofRaw_eq_entry_iff, trim_spacing ha hb]
  refine and_congr_right fun _ ↦ and_iff_right fun hhead ↦ hpercent ?_
  rw [← trim_spacing ha hb]
  exact head?_trim hhead (by decide)

/-- An entry is one with other spaces and tabs around it, too. -/
theorem LineKind.ofRaw_respaced {a' b' : Text} (h : ofRaw (a ++ t ++ b) = .entry)
    (hpercent : (trim t).head? ≠ some '%') (ha : IsSpacing a) (ha' : IsSpacing a') (hb : IsSpacing b)
    (hb' : IsSpacing b') : ofRaw (a' ++ t ++ b') = .entry := by
  rw [ofRaw_spacing_eq_entry_iff ha hb hpercent] at h
  exact (ofRaw_spacing_eq_entry_iff ha' hb' hpercent).mpr h

end Spacing

namespace Brinefile

variable {place : Option Text} {raw raw' : Text} {k : Keyword}

/-- They are markers together. -/
theorem LineAlike.head?_iff (h : LineAlike place raw raw') : raw.head? = some '%' ↔ raw'.head? = some '%' := by
  cases h with
  | same => exact Iff.rfl
  | marker => exact iff_of_true rfl rfl
  | skipped _ h h' => exact iff_of_false h.head?_ne h'.head?_ne
  | preamble _ h h' => exact iff_of_false h h'
  | readme _ h hb hb' => exact iff_of_false (head?_append_spacing h hb) (head?_append_spacing h hb')
  | entry _ h hpercent ha ha' hb hb' =>
      have h' := LineKind.ofRaw_respaced h hpercent ha ha' hb hb'
      exact iff_of_false (LineKind.ofRaw_eq_entry_iff.mp h).2.1 (LineKind.ofRaw_eq_entry_iff.mp h').2.1

/-- Markers name the same. -/
theorem LineAlike.marked_eq (h : LineAlike place raw raw') (hm : raw.head? = some '%') :
    lower (trim raw.tail) = lower (trim raw'.tail) := by
  have hm' := h.head?_iff.mp hm
  cases h with
  | same => rfl
  | marker ha ha' hb hb' hname =>
      refine lower_eq_of_asciiLower_eq ?_
      rw [List.tail_cons, List.tail_cons, trim_spacing ha hb, trim_spacing ha' hb', ← trim_asciiLower, hname,
        trim_asciiLower]
  | skipped _ h => exact absurd hm h.head?_ne
  | preamble _ h => exact absurd hm h
  | readme _ h hb => exact absurd hm (head?_append_spacing h hb)
  | entry _ h => exact absurd hm (LineKind.ofRaw_eq_entry_iff.mp h).2.1

/-- Below a marker, the keyword on it sees the same in them. -/
theorem LineAlike.sees_eq (h : LineAlike (some k.name) raw raw') (hm : raw.head? ≠ some '%') :
    k.sees raw = k.sees raw' := by
  have hreadme : some k.name ≠ some Keyword.readme.name → k ≠ .readme := fun hne hk ↦ hne (by rw [hk])
  cases h with
  | same => rfl
  | marker => exact absurd rfl hm
  | skipped hplace h h' =>
      rw [Keyword.sees, Keyword.sees, if_neg (hreadme hplace), if_neg (hreadme hplace), if_neg h.ne_entry,
        if_neg h'.ne_entry]
  | entry hplace h hpercent ha ha' hb hb' =>
      have h' := LineKind.ofRaw_respaced h hpercent ha ha' hb hb'
      rw [Keyword.sees, Keyword.sees, if_neg (hreadme hplace), if_neg (hreadme hplace), if_pos h, if_pos h',
        trim_spacing ha hb, trim_spacing ha' hb']
  | readme hplace _ hb hb' =>
      have hk : k = .readme := Keyword.name_injective (Option.some.inj hplace)
      rw [Keyword.sees, Keyword.sees, if_pos hk, if_pos hk, trimSpacesEnd_spacing hb, trimSpacesEnd_spacing hb']
  | preamble hplace => cases hplace

end Brinefile

/-! ## Cutting them -/

/-- Lines in one place that a section of a keyword sees as the same. -/
structure Line.Alike (k : Keyword) (l l' : Line) : Prop where
  index : l.index = l'.index
  sees : k.sees l.raw = k.sees l'.raw

/-- Sections of one keyword behind one marker, whose lines it sees as the same. -/
structure Section.Alike (s s' : Section) : Prop where
  keyword : s.keyword = s'.keyword
  line : s.line = s'.line
  lines : List.Forall₂ (Line.Alike s.keyword) s.lines s'.lines

/-- Results that are both there and related, or the same fault. -/
inductive Agree {α : Type} (R : α → α → Prop) : Except Fault α → Except Fault α → Prop
  | ok {x y : α} (h : R x y) : Agree R (.ok x) (.ok y)
  | error (e : Fault) : Agree R (.error e) (.error e)

theorem Agree.map {α β : Type} {R : α → α → Prop} {S : β → β → Prop} {r r' : Except Fault α} {f g : α → β}
    (h : Agree R r r') (hfg : ∀ x y, R x y → S (f x) (g y)) : Agree S (r.map f) (r'.map g) := by
  cases h with
  | ok h => exact .ok (hfg _ _ h)
  | error e => exact .error e

namespace Brinefile

variable {place : Option Text} {raws raws' : List Text}

/-- The lines up to the first marker are seen as the same below the marker that `place` is from, and the
sections from there on are alike. -/
def CutAlike (place : Option Text) (r r' : List Line × List Section) : Prop :=
  (∀ k : Keyword, place = some k.name → List.Forall₂ (Line.Alike k) r.1 r'.1) ∧
    List.Forall₂ Section.Alike r.2 r'.2

theorem gather_of_linesAlike (h : LinesAlike place raws raws') (n : Nat) :
    Agree (CutAlike place) (gather (Line.numberedFrom n raws)) (gather (Line.numberedFrom n raws')) := by
  induction h generalizing n with
  | nil place => exact .ok ⟨fun _ _ ↦ .nil, .nil⟩
  | @cons place raw raw' raws raws' h _ ih =>
      rw [Line.numberedFrom, Line.numberedFrom]
      by_cases hm : raw.head? = some '%'
      · have hl : Line.IsMarker ⟨n, raw⟩ := hm
        have hl' : Line.IsMarker ⟨n, raw'⟩ := h.head?_iff.mp hm
        have hmarked : Line.marked ⟨n, raw⟩ = Line.marked ⟨n, raw'⟩ := h.marked_eq hm
        rw [gather_cons_of_isMarker hl, gather_cons_of_isMarker hl', ← hmarked]
        cases hk : Keyword.ofName? (Line.marked ⟨n, raw⟩) with
        | none => exact .error _
        | some k =>
            -- The lines up to the next marker are the body of this section, so it is its keyword that sees them.
            refine (ih (n + 1)).map fun r r' hr ↦ ⟨fun _ _ ↦ .nil, .cons ⟨rfl, rfl, hr.1 k ?_⟩ hr.2⟩
            rw [placeBelow, if_pos hm, Keyword.name_of_ofName? hk]
            rfl
      · have hl : ¬ Line.IsMarker ⟨n, raw⟩ := hm
        have hl' : ¬ Line.IsMarker ⟨n, raw'⟩ := mt h.head?_iff.mpr hm
        rw [gather_cons_of_not_isMarker hl, gather_cons_of_not_isMarker hl']
        refine (ih (n + 1)).map fun r r' hr ↦ ⟨?_, hr.2⟩
        rintro k rfl
        exact .cons ⟨rfl, h.sees_eq hm⟩ (hr.1 k (placeBelow_of_ne hm))

end Brinefile

end Saltern
