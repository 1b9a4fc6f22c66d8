import Saltern.Document.Assembly
import Saltern.Proofs.Brinefile.LineLayout

/-!
# Layout does not matter

Texts that differ in layout only describe the same document, line numbers included, or are rejected for
the same fault.
-/

namespace Saltern

open Text

/-! ## One entry -/

namespace Line

variable {l l' : Line} {k : Keyword}

/-- Entries in one place that say the same. -/
structure SameEntry (l l' : Line) : Prop where
  index : l.index = l'.index
  content : l.content = l'.content

theorem SameEntry.number (h : l.SameEntry l') : l.number = l'.number := congrArg (· + 1) h.index

theorem Alike.kind_iff (h : Alike k l l') (hk : k ≠ .readme) : l.kind = .entry ↔ l'.kind = .entry := by
  have hsees := h.sees
  rw [Keyword.sees, Keyword.sees, if_neg hk, if_neg hk] at hsees
  by_cases hkind : LineKind.ofRaw l.raw = .entry <;> by_cases hkind' : LineKind.ofRaw l'.raw = .entry
  · exact iff_of_true hkind hkind'
  · rw [if_pos hkind, if_neg hkind'] at hsees
    cases hsees
  · rw [if_neg hkind, if_pos hkind'] at hsees
    cases hsees
  · exact iff_of_false hkind hkind'

theorem Alike.sameEntry (h : Alike k l l') (hk : k ≠ .readme) (hkind : l.kind = .entry) : l.SameEntry l' where
  index := h.index
  content := by
    have hsees := h.sees
    have hkind' := (h.kind_iff hk).mp hkind
    rw [kind] at hkind hkind'
    rw [Keyword.sees, Keyword.sees, if_neg hk, if_neg hk, if_pos hkind, if_pos hkind'] at hsees
    exact Option.some.inj hsees

end Line

namespace Section

variable {s s' : Section} {l l' : Line} {k : Keyword} {kind : ItemKind}

theorem item_congr (h : l.SameEntry l') : item k kind l = item k kind l' := by
  unfold item
  rw [h.content, h.number]

theorem symlink_congr (h : l.SameEntry l') : symlink l = symlink l' := by
  unfold symlink
  rw [h.content, h.number]

theorem setting_congr (h : l.SameEntry l') : setting l = setting l' := by
  unfold setting
  rw [h.content, h.number]

theorem cronjob_congr (h : l.SameEntry l') : cronjob l = cronjob l' := by
  unfold cronjob
  rw [h.content, h.number]

/-! ## One section -/

theorem Alike.forall₂_entries (h : s.Alike s') (hk : s.keyword ≠ .readme) :
    List.Forall₂ Line.SameEntry s.entries s'.entries := by
  have hentries : List.Forall₂ (Line.Alike s.keyword) s.entries s'.entries :=
    List.rel_filter (fun l l' hl ↦ by simpa using hl.kind_iff hk) h.lines
  have hkind : ∀ l ∈ s.entries, l.kind = .entry := fun l hl ↦ by simpa using (List.mem_filter.mp hl).2
  exact ((List.forall₂_and_left _ _).mpr ⟨hkind, hentries⟩).imp fun l l' hl ↦ hl.2.sameEntry hk hl.1

section Entries

variable {β : Type} (h : s.Alike s') (hk : s.keyword ≠ .readme)

include h hk

theorem Alike.map_entries {g : Line → β} (hg : ∀ l l', l.SameEntry l' → g l = g l') :
    s.entries.map g = s'.entries.map g := by
  rw [← List.forall₂_eq_eq_eq]
  exact List.rel_map (fun l l' ↦ hg l l') (h.forall₂_entries hk)

theorem Alike.mapM_entries {f : Line → Except Fault β} (hf : ∀ l l', l.SameEntry l' → f l = f l') :
    s.entries.mapM f = s'.entries.mapM f := by
  have hmap : ∀ ls : List Line, ls.mapM f = (ls.map f).mapM id := fun ls ↦ (List.mapM_map (g := id)).symm
  rw [hmap, hmap, h.map_entries hk hf]

theorem Alike.values_eq : s.values = s'.values := h.map_entries hk fun _ _ hl ↦ hl.content

theorem Alike.executables_eq : s.executables = s'.executables :=
  h.map_entries hk fun l l' hl ↦ by rw [hl.content, hl.number]

theorem Alike.name_eq : s.name = s'.name := by
  have hentries := h.forall₂_entries hk
  unfold name
  rw [h.keyword, h.line]
  generalize s.entries = ls at hentries ⊢
  generalize s'.entries = ls' at hentries ⊢
  cases hentries with
  | nil => rfl
  | cons hl hrest =>
      cases hrest with
      | nil => simp only [hl.content, hl.number]
      | cons hm _ => simp only [hl.content, hm.content, hm.number]

end Entries

theorem Alike.verbatim_eq (h : s.Alike s') (hk : s.keyword = .readme) : s.verbatim = s'.verbatim := by
  have hlines : s.lines.map (fun l ↦ trimSpacesEnd l.raw) = s'.lines.map fun l ↦ trimSpacesEnd l.raw := by
    rw [← List.forall₂_eq_eq_eq]
    refine List.rel_map (fun l l' hl ↦ ?_) h.lines
    have hsees := hl.sees
    rw [Keyword.sees, Keyword.sees, if_pos hk, if_pos hk] at hsees
    exact Option.some.inj hsees
  rw [verbatim, verbatim, hlines]

/-- Sections that are alike are read alike, or blamed for the same. -/
theorem Alike.contents_eq (h : s.Alike s') : s.contents = s'.contents := by
  unfold contents items symlinks settings cronjobs
  rw [← h.keyword]
  by_cases hreadme : s.keyword = .readme
  · rw [hreadme, h.verbatim_eq hreadme]
  · have hitems : ∀ kind : ItemKind,
        s.entries.mapM (item s.keyword kind) = s'.entries.mapM (item s.keyword kind) :=
      fun kind ↦ h.mapM_entries hreadme fun _ _ ↦ item_congr
    simp only [h.name_eq hreadme, prose, h.values_eq hreadme, h.executables_eq hreadme, hitems,
      h.mapM_entries hreadme fun _ _ ↦ symlink_congr, h.mapM_entries hreadme fun _ _ ↦ setting_congr,
      h.mapM_entries hreadme fun _ _ ↦ cronjob_congr]
    cases hk : s.keyword <;> first | rfl | exact absurd hk hreadme

end Section

/-! ## All sections -/

namespace Document

open Brinefile (LineAlike placeBelow placeBelow_of_ne)

variable {ss ss' : List Section}

theorem readSections_of_alike (h : List.Forall₂ Section.Alike ss ss') (named : Bool) :
    readSections named ss = readSections named ss' := by
  induction h generalizing named with
  | nil => rfl
  | @cons s s' ss ss' hs _ ih => rw [readSections, readSections, hs.keyword, hs.line, hs.contents_eq, ih]

theorem descriptionLine_of_alike (h : List.Forall₂ Section.Alike ss ss') :
    descriptionLine ss = descriptionLine ss' := by
  unfold descriptionLine
  induction h with
  | nil => rfl
  | @cons s s' ss ss' hs _ ih =>
      rw [List.find?_cons, List.find?_cons, hs.keyword]
      cases decide (s'.keyword = .description) with
      | true => exact congrArg some hs.line
      | false => exact ih

theorem ofSections_of_alike (h : List.Forall₂ Section.Alike ss ss') : ofSections ss = ofSections ss' := by
  rw [ofSections, ofSections, readSections_of_alike h, descriptionLine_of_alike h]

/-- Texts that differ in layout only describe the same document or are blamed for the same fault. -/
theorem ofText_of_linesAlike {t t' : Text} (h : Brinefile.LinesAlike none (lines t) (lines t')) :
    ofText t = ofText t' := by
  have hcut := Brinefile.gather_of_linesAlike h 0
  rw [ofText, ofText, Brinefile.ofText, Brinefile.ofText, Brinefile.linesOf, Brinefile.linesOf]
  generalize Brinefile.gather (Line.numberedFrom 0 (lines t)) = r at hcut ⊢
  generalize Brinefile.gather (Line.numberedFrom 0 (lines t')) = r' at hcut ⊢
  cases hcut with
  | error e => rfl
  | ok h => exact ofSections_of_alike h.2

/-- Two spellings of one role. -/
theorem ofText_of_linesAlike_role :
    let text : Text := "by hand\n%rolename\nr\n\n%description\nd\n%readme\n  # it \n %d".toList
    let text' : Text := "# of one\n% RoleName\t\n  r \n# who\n%description\nd\n%README\n  # it\t\n %d".toList
    text ≠ text' ∧ Brinefile.LinesAlike none (lines text) (lines text') ∧
      ∃ d, ofText text = .ok d ∧ ofText text' = .ok d := by
  intro text text'
  have hlines : lines text =
      (["by hand", "%rolename", "r", "", "%description", "d", "%readme", "  # it ", " %d"] : List Text) := rfl
  have hlines' : lines text' =
      (["# of one", "% RoleName\t", "  r ", "# who", "%description", "d", "%README", "  # it\t",
        " %d"] : List Text) := rfl
  have hrole : ∀ place, placeBelow place "%rolename" = some Keyword.rolename.name := fun _ ↦ rfl
  have hreadme : ∀ place, placeBelow place "%readme" = some Keyword.readme.name := fun _ ↦ rfl
  have halike : Brinefile.LinesAlike none (lines text) (lines text') := by
    rw [hlines, hlines']
    refine .cons (.preamble rfl (by decide) (by decide)) ?_
    refine .cons (@LineAlike.marker _ "rolename" "RoleName" [] [' '] [] ['\t'] nofun (by decide) nofun (by decide)
      (by decide)) ?_
    rw [hrole]
    refine .cons (@LineAlike.entry _ ['r'] [] [' ', ' '] [] [' '] (by decide) rfl (by decide) nofun (by decide)
      nofun (by decide)) ?_
    rw [placeBelow_of_ne (by decide)]
    refine .cons (.skipped (by decide) (by decide) (by decide)) ?_
    refine .cons (.same _) (.cons (.same _) ?_)
    refine .cons (@LineAlike.marker _ "readme" "README" [] [] [] [] nofun nofun nofun nofun (by decide)) ?_
    rw [hreadme]
    refine .cons (@LineAlike.readme _ "  # it" [' '] ['\t'] rfl (by decide) (by decide) (by decide)) ?_
    exact .cons (.same _) (.nil _)
  exact ⟨by decide, halike, _, rfl, (ofText_of_linesAlike halike).symm⟩

end Document

end Saltern
