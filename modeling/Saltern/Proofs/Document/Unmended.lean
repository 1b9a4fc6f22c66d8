import Saltern.Proofs.Brinefile.Structure
import Saltern.Proofs.Document.Alike

/-!
# What formatting does not mend

A text that is rejected is rejected for the same reason once it is formatted, with two exceptions: a
lone equals sign among items is printed as nothing, and a removed symlink whose path starts with an
angle bracket is no symlink any more when it is printed. Nothing else that formatting does to the lines
matters to the verdict.
-/

namespace Saltern

open Text

namespace Keyword

variable {k : Keyword} {t : Text}

/-- Whether an entry is not read as before once it is printed. -/
def Misprints (k : Keyword) (t : Text) : Prop :=
  k.holdsItems = true ∧ t = ['='] ∨ k = .symlinks ∧ ∃ l ∈ LinkLine.ofText? t, l.OpensWithArrow

instance : Decidable (k.Misprints t) :=
  inferInstanceAs (Decidable (k.holdsItems = true ∧ t = ['='] ∨
    k = .symlinks ∧ ∃ l ∈ LinkLine.ofText? t, l.OpensWithArrow))

@[refl] theorem ReadsAlike.refl (k : Keyword) (t : Text) : k.ReadsAlike t t := by cases k <;> rfl

theorem readsAlike_respellContent (h : ¬ k.Misprints t) : k.ReadsAlike t (k.respellContent t) := by
  cases k with
  | packages | files | directories | services => exact (itemLine_respellContent rfl t).symm
  | symlinks =>
      cases hl : LinkLine.ofText? t with
      | none => rw [respellContent_of_no_link hl]
      | some l =>
          have harrow : ¬ l.OpensWithArrow := fun harrow ↦ h (.inr ⟨rfl, l, hl, harrow⟩)
          exact hl.trans (linkLine_respellContent hl harrow).symm
  | sysctl =>
      cases hs : Setting.ofText? t with
      | none => rw [respellContent_of_no_setting hs]
      | some s => exact hs.trans (setting_respellContent hs).symm
  | rolename | elementname | description | readme | includes | commands | scripts | cronjobs =>
      exact (respellContent_of_plain rfl (by decide) (by decide) t).symm

end Keyword

namespace Section

variable {s s' : Section} {e : LineEnding}

/-- A section with every line printed in its place. -/
def respelled (s : Section) : Section :=
  { s with lines := s.lines.map fun l ↦ ⟨l.index, printLine s.keyword l⟩ }

theorem values_respelled (hm : ∀ l ∈ s.lines, l.kind ≠ .marker) :
    s.respelled.values = (s.values.map s.keyword.respellContent).filter (!·.isEmpty) := by
  rw [← entries_map_printLine hm, values_eq, raws, respelled, List.map_map]
  rfl

/-- Printing a section is no more to its verdict than printing its lines in their places. -/
theorem alike_respelled_reread (h : s.IsReread e s') :
    s.respelled.keyword = s'.keyword ∧
      List.Forall₂ s.respelled.keyword.ReadsAlike s.respelled.values s'.values := by
  refine ⟨h.keyword.symm, ?_⟩
  rw [values_respelled h.plain, ← values_reread h, List.forall₂_same]
  exact fun t _ ↦ .refl _ t

/-- Without a misprint that is nothing either. -/
theorem alike_respelled (hm : ∀ l ∈ s.lines, l.kind ≠ .marker) (h : ∀ t ∈ s.values, ¬ s.keyword.Misprints t) :
    s.keyword = s.respelled.keyword ∧ List.Forall₂ s.keyword.ReadsAlike s.values s.respelled.values := by
  refine ⟨rfl, ?_⟩
  rw [values_respelled hm, filter_respellContent fun hitems hsign ↦ h _ hsign (.inl ⟨hitems, rfl⟩),
    List.forall₂_map_right_iff, List.forall₂_same]
  exact fun t ht ↦ Keyword.readsAlike_respellContent (h t ht)

end Section

namespace Document

variable {t : Text} {b : Brinefile} {e : Fault}

theorem ofText_of_cut (hb : Brinefile.ofText t = .ok b) : ofText t = ofSections b.sections := by
  rw [ofText, hb]

/-- A text that is rejected for what its sections hold can be formatted, and then is rejected for the
same reason, unless an entry is misprinted; and whatever is misprinted, its verdict is that of the
sections with every line printed in its place. -/
theorem ofText_format_error (preserveNewlines : Bool) (hb : Brinefile.ofText t = .ok b)
    (h : ofText t = .error e) :
    ∃ f, Brinefile.format preserveNewlines t = .ok f ∧
      ((∀ s ∈ b.sections, ∀ v ∈ s.values, ¬ s.keyword.Misprints v) → e.Recurs (ofText f.text)) ∧
      ∀ e' : Fault, e'.Recurs (ofText f.text) ↔ e'.Recurs (ofSections (b.sections.map Section.respelled)) := by
  have hm : ∀ s ∈ b.sections, ∀ l ∈ s.lines, l.kind ≠ .marker :=
    fun s hs l hl ↦ ((Brinefile.ofText_lines hb).2 s hs l hl).2
  obtain ⟨b', hb', hr⟩ := Brinefile.ofText_printed hb (Brinefile.ending preserveNewlines t)
  have hprinted : SectionsAlike (b.sections.map Section.respelled) b'.sections := by
    rw [SectionsAlike, List.forall₂_map_left_iff]
    exact (hr.forall₂_sections hb).imp fun _ _ ↦ Section.alike_respelled_reread
  have hverdict := sameVerdict_ofSections hprinted
  refine ⟨_, Brinefile.format_of_ok hb, fun hmisprints ↦ ?_, fun e' ↦ ?_⟩
  · have hrespelled : SectionsAlike b.sections (b.sections.map Section.respelled) := by
      rw [SectionsAlike, List.forall₂_map_right_iff, List.forall₂_same]
      exact fun s hs ↦ Section.alike_respelled (hm s hs) (hmisprints s hs)
    rw [ofText_of_cut hb', ← hverdict.recurs_iff, ← (sameVerdict_ofSections hrespelled).recurs_iff,
      ← ofText_of_cut hb, h]
    exact ⟨e, rfl, rfl, rfl, rfl⟩
  · rw [ofText_of_cut hb', hverdict.recurs_iff]

/-- A removal with a value is rejected as such before and after. -/
theorem ofText_format_removal_with_value :
    ∃ e f, ofText "%rolename\nr\n\n%description\nd\n\n%packages\n- a = b\n" = .error e ∧
      Brinefile.format true "%rolename\nr\n\n%description\nd\n\n%packages\n- a = b\n" = .ok f ∧
        e.Recurs (ofText f.text) := by
  obtain ⟨f, hf, hrecurs, -⟩ :=
    ofText_format_error true (t := "%rolename\nr\n\n%description\nd\n\n%packages\n- a = b\n") rfl rfl
  exact ⟨_, f, rfl, hf, hrecurs (by decide)⟩

/-- A lone equals sign is rejected before, and gone after. -/
theorem ofText_format_lone_equals :
    ofText "%rolename\nr\n\n%description\nd\n\n%packages\n=\n" =
        .error (.missingTarget "=" .package .packages 8) ∧
      ∃ f d, Brinefile.format true "%rolename\nr\n\n%description\nd\n\n%packages\n=\n" = .ok f ∧
        ofText f.text = .ok d :=
  ⟨rfl, _, _, rfl, rfl⟩

end Document

end Saltern
