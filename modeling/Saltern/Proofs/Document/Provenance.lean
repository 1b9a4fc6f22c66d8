import Saltern.Proofs.Brinefile.EntryLines
import Saltern.Proofs.Table.Sorted

/-!
# Where the parts of a document come from

Each list of an accepted document is read off the entry lines of its keyword one by one, in the order of
the text: nothing is lost, nothing is read twice, and each element knows the line it was read from.
-/

namespace Saltern

open Text
open Brinefile (AreEntryLines entriesOf)

/-- The line that an item is read from, without blanks. -/
def Item.itemLine (i : Item) : ItemLine :=
  match i.state with
  | .present value => .present i.target value
  | .absent => .absent i.target

/-- A list that is read off the entry lines of a keyword one by one. -/
structure ReadOff {α : Type} (t : Text) (k : Keyword) (number : α → Nat) (reads : Text → α → Prop)
    (xs : List α) : Prop where
  increasing : (xs.map number).Pairwise (· < ·)
  lines : ∃ es, AreEntryLines t k es ∧ List.Forall₂ (fun e x ↦ number x = e.1 ∧ reads e.2 x) es xs

/-- A document each part of which comes from the lines of a text that declare it. -/
structure Document.IsReadOff (d : Document) (t : Text) : Prop where
  packages : ReadOff t .packages Item.line (fun raw i ↦ i.kind = .package ∧ ItemLine.ofText raw = i.itemLine)
    d.packages
  files : ReadOff t .files Item.line (fun raw i ↦ i.kind = .file ∧ ItemLine.ofText raw = i.itemLine) d.files
  directories : ReadOff t .directories Item.line
    (fun raw i ↦ i.kind = .directory ∧ ItemLine.ofText raw = i.itemLine) d.directories
  services : ReadOff t .services Item.line (fun raw i ↦ i.kind = .service ∧ ItemLine.ofText raw = i.itemLine)
    d.services
  symlinks : ReadOff t .symlinks Symlink.line (fun raw x ↦ LinkLine.ofText? raw = some x.toLinkLine) d.symlinks
  commands : ReadOff t .commands Executable.line (fun raw x ↦ x.value = trim raw) d.commands
  scripts : ReadOff t .scripts Executable.line (fun raw x ↦ x.value = trim raw) d.scripts
  cronjobs : ReadOff t .cronjobs CronJob.line
    (fun raw j ↦ CronLine.ofText? raw = some j.toCronLine ∧ j.raw = trim raw) d.cronjobs
  includes : ∃ es, AreEntryLines t .includes es ∧ d.includes = es.map fun e ↦ trim e.2
  /-- Of several settings with one key the first gives the place and the last the value. -/
  sysctl : ∃ es settings, AreEntryLines t .sysctl es ∧
    List.Forall₂ (fun e s ↦ Setting.ofText? e.2 = some s) es settings ∧
    d.sysctl.keys = (settings.map Setting.key).eraseDups ∧
    ∀ k, d.sysctl.get? k = (settings.filter (·.key = k)).getLast?.map Setting.value

/-! ## One line -/

theorem ItemLine.ofText_trim (t : Text) : ofText (trim t) = ofText t := by
  unfold ofText
  rw [trim_trim]

theorem LinkLine.ofText?_trim (t : Text) : ofText? (trim t) = ofText? t := by
  unfold ofText?
  rw [trim_trim]

theorem Setting.ofText?_trim (t : Text) : ofText? (trim t) = ofText? t := by
  unfold ofText?
  rw [trim_trim]

theorem CronLine.ofText?_trim (t : Text) : ofText? (trim t) = ofText? t := by
  simp only [ofText?, trim_trim]

namespace Section

variable {s : Section} {l : Line} {k : Keyword} {kind : ItemKind}

theorem item_readOff {i : Item} (h : item k kind l = .ok i) :
    i.line = l.number ∧ i.kind = kind ∧ ItemLine.ofText l.raw = i.itemLine := by
  rw [← ItemLine.ofText_trim, ← Line.content]
  unfold item at h
  split at h
  · cases h
  · next target hline =>
    split at h
    · cases h
    · cases h
      exact ⟨rfl, rfl, hline⟩
  · next target value hline =>
    split at h
    · cases h
    · split at h
      · cases h
        exact ⟨rfl, rfl, hline⟩
      · split at h
        · cases h
        · split at h
          · cases h
          · cases h
            exact ⟨rfl, rfl, hline⟩

theorem symlink_readOff {x : Symlink} (h : symlink l = .ok x) :
    x.line = l.number ∧ LinkLine.ofText? l.raw = some x.toLinkLine := by
  rw [← LinkLine.ofText?_trim, ← Line.content]
  unfold symlink at h
  split at h
  · next link hlink =>
    cases h
    exact ⟨rfl, hlink⟩
  · cases h

theorem setting_readOff {x : Setting} (h : setting l = .ok x) : Setting.ofText? l.raw = some x := by
  rw [← Setting.ofText?_trim, ← Line.content]
  unfold setting at h
  split at h
  · cases h
  · next kept hkept =>
    split at h
    · cases h
    · cases h
      exact hkept

theorem cronjob_readOff {j : CronJob} (h : cronjob l = .ok j) :
    j.line = l.number ∧ CronLine.ofText? l.raw = some j.toCronLine ∧ j.raw = trim l.raw := by
  rw [← CronLine.ofText?_trim, ← Line.content]
  unfold cronjob at h
  split at h
  · next job hjob =>
    cases h
    exact ⟨rfl, hjob, rfl⟩
  · cases h

end Section

/-! ## One section -/

/-- The keyword of the sections that hold some contents. -/
def Contents.keyword : Contents → Keyword
  | .identity .role _ => .rolename
  | .identity _ _ => .elementname
  | .description _ => .description
  | .readme _ => .readme
  | .includes _ => .includes
  | .sysctl _ => .sysctl
  | .packages _ => .packages
  | .files _ => .files
  | .directories _ => .directories
  | .services _ => .services
  | .symlinks _ => .symlinks
  | .commands _ => .commands
  | .scripts _ => .scripts
  | .cronjobs _ => .cronjobs

/-- The settings that some contents declare. -/
def Contents.settings : Contents → List Setting
  | .sysctl xs => xs
  | _ => []

namespace Section

variable {s : Section} {c : Contents}

theorem keyword_contents (h : s.contents = .ok c) : c.keyword = s.keyword := by
  unfold contents at h
  cases hk : s.keyword <;> rw [hk] at h
  case description | readme | includes | commands | scripts =>
    cases h
    rfl
  all_goals
    obtain ⟨x, -, rfl⟩ := map_eq_ok_iff.mp h
    rfl

theorem forall₂_executables (s : Section) :
    List.Forall₂ (fun l (x : Executable) ↦ x.line = l.number ∧ x.value = trim l.raw) s.entries s.executables := by
  rw [executables, List.forall₂_map_right_iff, List.forall₂_same]
  exact fun l _ ↦ ⟨rfl, rfl⟩

theorem forall₂_values (s : Section) : List.Forall₂ (fun l v ↦ v = trim l.raw) s.entries s.values := by
  rw [values, List.forall₂_map_right_iff, List.forall₂_same]
  exact fun l _ ↦ rfl

end Section

namespace Document

variable {α : Type} {t : Text} {b : Brinefile} {d : Document} {k : Keyword} {ss : List Section}
  {cs : List Contents} {part : Contents → List α} {R : Line → α → Prop} {kind : DocumentKind}
  {name description : Text}

/-! ## All sections -/

/-- What the sections of a keyword add to a document stems from their entries in order. -/
theorem forall₂_part (h : List.Forall₂ (fun s c ↦ Section.contents s = .ok c) ss cs)
    (hpart : ∀ (s : Section) (c : Contents), s.keyword = k → s.contents = .ok c →
      List.Forall₂ R s.entries (part c))
    (hother : ∀ c : Contents, c.keyword ≠ k → part c = []) :
    List.Forall₂ R (entriesOf k ss) (cs.flatMap part) := by
  induction h with
  | nil => exact .nil
  | @cons s c ss cs hc _ ih =>
      rw [Brinefile.entriesOf_cons, List.flatMap_cons]
      by_cases hk : s.keyword = k
      · rw [if_pos hk]
        exact List.rel_append (hpart s c hk hc) ih
      · rw [if_neg hk, hother c (Section.keyword_contents hc ▸ hk)]
        exact ih

/-- Where entries are read one by one, so is all that the sections of a keyword add. -/
theorem forall₂_part_of_entries {f : Line → Except Fault α} {g : List α → Contents}
    (h : List.Forall₂ (fun s c ↦ Section.contents s = .ok c) ss cs)
    (hc : ∀ s : Section, s.keyword = k → s.contents = (s.entries.mapM f).map g) (hg : ∀ xs, part (g xs) = xs)
    (hf : ∀ l x, f l = .ok x → R l x) (hother : ∀ c : Contents, c.keyword ≠ k → part c = []) :
    List.Forall₂ R (entriesOf k ss) (cs.flatMap part) := by
  refine forall₂_part h (fun s c hk hsc ↦ ?_) hother
  rw [hc s hk] at hsc
  obtain ⟨xs, hxs, rfl⟩ := map_eq_ok_iff.mp hsc
  rw [hg]
  exact (mapM_eq_ok_iff.mp hxs).imp hf

/-- The lines that a list is read off are all there are. -/
theorem readOff_of_forall₂ {xs : List α} {number : α → Nat} {reads : Text → α → Prop}
    (hb : Brinefile.ofText t = .ok b)
    (h : List.Forall₂ (fun l x ↦ number x = l.number ∧ reads l.raw x) (entriesOf k b.sections) xs) :
    ReadOff t k number reads xs := by
  have hlines := Brinefile.areEntryLines hb k
  refine ⟨?_, _, hlines, List.forall₂_map_left_iff.mpr h⟩
  have hnumbers : xs.map number = (entriesOf k b.sections).map Line.number := by
    rw [← List.forall₂_eq_eq_eq, List.forall₂_map_left_iff, List.forall₂_map_right_iff]
    exact h.flip.imp fun _ _ hx ↦ hx.1
  have hincreasing := hlines.increasing
  rw [List.map_map] at hincreasing
  rw [hnumbers]
  exact hincreasing

theorem forall₂_settings (h : List.Forall₂ (fun s c ↦ Section.contents s = .ok c) ss cs) :
    List.Forall₂ (fun l s ↦ Setting.ofText? l.raw = some s) (entriesOf .sysctl ss)
      (cs.flatMap Contents.settings) := by
  refine forall₂_part_of_entries (g := .sysctl) h (fun s hk ↦ ?_) (fun _ ↦ rfl)
    (fun l s ↦ Section.setting_readOff) fun c hc ↦ ?_
  · rw [Section.contents, hk, Section.settings]
  · cases c <;> first | rfl | exact absurd rfl hc

theorem keys_sysctl (cs : List Contents) :
    (gather kind name description cs).sysctl.keys =
      ((cs.flatMap Contents.settings).map Setting.key).eraseDups := by
  change (Table.ofList ((cs.flatMap Contents.settings).map fun s ↦ (s.key, s.value))).keys = _
  rw [Table.keys_ofList, List.map_map]
  rfl

theorem get?_sysctl (cs : List Contents) (k : Text) :
    (gather kind name description cs).sysctl.get? k =
      ((cs.flatMap Contents.settings).filter (·.key = k)).getLast?.map Setting.value := by
  change (Table.ofList ((cs.flatMap Contents.settings).map fun s ↦ (s.key, s.value))).get? k = _
  rw [Table.get?_ofList_eq_getLast?, List.filter_map, List.getLast?_map, Option.map_map]
  rfl

section Parts

variable (hb : Brinefile.ofText t = .ok b)
  (hcs : List.Forall₂ (fun s c ↦ Section.contents s = .ok c) b.sections cs)

include hb hcs

theorem readOff_items {kind : ItemKind} {g : List Item → Contents} {part : Contents → List Item}
    (hc : ∀ s : Section, s.keyword = k → s.contents = (s.items kind).map g) (hg : ∀ xs, part (g xs) = xs)
    (hother : ∀ c : Contents, c.keyword ≠ k → part c = []) :
    ReadOff t k Item.line (fun raw i ↦ i.kind = kind ∧ ItemLine.ofText raw = i.itemLine) (cs.flatMap part) := by
  refine readOff_of_forall₂ hb (forall₂_part_of_entries hcs (fun s hk ↦ ?_) hg
    (fun l i ↦ Section.item_readOff (k := k)) hother)
  rw [hc s hk, Section.items, hk]

theorem readOff_executables {g : List Executable → Contents} {part : Contents → List Executable}
    (hc : ∀ s : Section, s.keyword = k → s.contents = .ok (g s.executables)) (hg : ∀ xs, part (g xs) = xs)
    (hother : ∀ c : Contents, c.keyword ≠ k → part c = []) :
    ReadOff t k Executable.line (fun raw x ↦ x.value = trim raw) (cs.flatMap part) := by
  refine readOff_of_forall₂ hb (forall₂_part hcs (fun s c hk hsc ↦ ?_) hother)
  rw [hc s hk] at hsc
  obtain rfl := Except.ok.inj hsc
  rw [hg]
  exact s.forall₂_executables

end Parts

/-- An accepted document is read off the entry lines of its text. -/
theorem ofText_isReadOff (h : ofText t = .ok d) : d.IsReadOff t := by
  unfold ofText at h
  cases hb : Brinefile.ofText t with
  | error e => simp [hb] at h
  | ok b =>
    rw [hb] at h
    obtain ⟨cs, hread, kind, name, -, -, rfl⟩ := ofSections_eq_ok_iff.mp h
    have hcs := mapM_eq_ok_iff.mp (readSections_eq_ok_iff.mp hread).2
    have hlines := fun k ↦ Brinefile.areEntryLines hb k
    -- Each list has its own contents and nothing of any other.
    constructor
    case packages =>
      refine readOff_items hb hcs (g := .packages) (fun s hk ↦ by rw [Section.contents, hk]) (fun _ ↦ rfl) ?_
      exact fun c hc ↦ by cases c <;> first | rfl | exact absurd rfl hc
    case files =>
      refine readOff_items hb hcs (g := .files) (fun s hk ↦ by rw [Section.contents, hk]) (fun _ ↦ rfl) ?_
      exact fun c hc ↦ by cases c <;> first | rfl | exact absurd rfl hc
    case directories =>
      refine readOff_items hb hcs (g := .directories) (fun s hk ↦ by rw [Section.contents, hk])
        (fun _ ↦ rfl) ?_
      exact fun c hc ↦ by cases c <;> first | rfl | exact absurd rfl hc
    case services =>
      refine readOff_items hb hcs (g := .services) (fun s hk ↦ by rw [Section.contents, hk]) (fun _ ↦ rfl) ?_
      exact fun c hc ↦ by cases c <;> first | rfl | exact absurd rfl hc
    case symlinks =>
      refine readOff_of_forall₂ hb (forall₂_part_of_entries (g := .symlinks) hcs (fun s hk ↦ ?_)
        (fun _ ↦ rfl) (fun l x ↦ Section.symlink_readOff) fun c hc ↦ ?_)
      · rw [Section.contents, hk, Section.symlinks]
      · cases c <;> first | rfl | exact absurd rfl hc
    case commands =>
      refine readOff_executables hb hcs (g := .commands) (fun s hk ↦ by rw [Section.contents, hk])
        (fun _ ↦ rfl) ?_
      exact fun c hc ↦ by cases c <;> first | rfl | exact absurd rfl hc
    case scripts =>
      refine readOff_executables hb hcs (g := .scripts) (fun s hk ↦ by rw [Section.contents, hk])
        (fun _ ↦ rfl) ?_
      exact fun c hc ↦ by cases c <;> first | rfl | exact absurd rfl hc
    case cronjobs =>
      refine readOff_of_forall₂ hb (forall₂_part_of_entries (g := .cronjobs) hcs (fun s hk ↦ ?_)
        (fun _ ↦ rfl) (fun l j ↦ Section.cronjob_readOff) fun c hc ↦ ?_)
      · rw [Section.contents, hk, Section.cronjobs]
      · cases c <;> first | rfl | exact absurd rfl hc
    case includes =>
      refine ⟨_, hlines .includes, ?_⟩
      rw [← List.forall₂_eq_eq_eq, List.map_map, List.forall₂_map_right_iff]
      refine (forall₂_part (R := fun l v ↦ v = trim l.raw) hcs (fun s c hk hc ↦ ?_) fun c hc ↦ ?_).flip
      · rw [Section.contents, hk] at hc
        cases hc
        exact s.forall₂_values
      · cases c <;> first | rfl | exact absurd rfl hc
    case sysctl =>
      have hsettings := forall₂_settings hcs
      exact ⟨_, _, hlines .sysctl, List.forall₂_map_left_iff.mpr hsettings, keys_sysctl cs, get?_sysctl cs⟩

/-- Packages in two sections with another between, and a setting that is given twice. -/
theorem ofText_isReadOff_interleaved :
    let text : Text := "%rolename\nr\n%packages\n b\n%sysctl\nk=1\nj=2\nk=3\n%description\nd\n%Packages \n\n#\n- a\n"
    ∃ d, ofText text = .ok d ∧ d.IsReadOff text ∧ d.packages.map Item.line = [4, 14] ∧
      d.sysctl.keys = ["k", "j"] ∧ d.sysctl.get? "k" = some "3" := by
  intro text
  exact ⟨_, rfl, ofText_isReadOff (t := text) rfl, rfl, rfl, rfl⟩

end Document

end Saltern
