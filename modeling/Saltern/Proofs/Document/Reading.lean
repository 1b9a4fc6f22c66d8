import Mathlib.Data.List.Forall2
import Saltern.Document.Assembly

/-!
# Reading section by section

A document is read when every section is, when there is one identity among them and when a
description says something. What is read is then put together from the contents in their order.
-/

namespace Saltern

section Traversal

variable {α β γ δ ε : Type} {f : α → Except ε β} {as as' : List α} {xs : List β}

/-- A traversal succeeds where every element is read, and finds what is read there. -/
theorem mapM_eq_ok_iff : as.mapM f = .ok xs ↔ List.Forall₂ (fun a x ↦ f a = .ok x) as xs := by
  induction as generalizing xs with
  | nil => simp [pure, Except.pure, eq_comm]
  | cons a as ih =>
      rw [List.mapM_cons, List.forall₂_cons_left_iff]
      cases ha : f a with
      | error e => simp [bind, Except.bind]
      | ok x =>
          cases has : as.mapM f with
          | error e =>
              have hno : ∀ ys, ¬ List.Forall₂ (fun a x ↦ f a = .ok x) as ys := fun ys h ↦ by
                rw [← ih, has] at h
                cases h
              simp [bind, Except.bind, hno]
          | ok ys =>
              have hiff : ∀ zs, List.Forall₂ (fun a x ↦ f a = .ok x) as zs ↔ ys = zs := fun zs ↦ by
                rw [← ih, has, Except.ok.injEq]
              simp [bind, Except.bind, pure, Except.pure, hiff, eq_comm]

theorem map_eq_ok_iff {g : β → γ} {r : Except ε β} {c : γ} :
    r.map g = .ok c ↔ ∃ x, r = .ok x ∧ g x = c := by
  cases r with
  | error e => simp [Except.map]
  | ok x => simp [Except.map]

theorem exists_of_mapM_eq_ok (h : as.mapM f = .ok xs) {a : α} (ha : a ∈ as) : ∃ x ∈ xs, f a = .ok x := by
  rw [mapM_eq_ok_iff] at h
  induction h with
  | nil => cases ha
  | cons hx _ ih =>
      rcases List.mem_cons.mp ha with rfl | ha
      · exact ⟨_, List.mem_cons_self, hx⟩
      · obtain ⟨x, hx, hax⟩ := ih ha
        exact ⟨x, List.mem_cons_of_mem _ hx, hax⟩

theorem exists_of_mem_mapM (h : as.mapM f = .ok xs) {x : β} (hx : x ∈ xs) : ∃ a ∈ as, f a = .ok x := by
  rw [mapM_eq_ok_iff] at h
  induction h with
  | nil => cases hx
  | cons ha _ ih =>
      rcases List.mem_cons.mp hx with rfl | hx
      · exact ⟨_, List.mem_cons_self, ha⟩
      · obtain ⟨a, hmem, hax⟩ := ih hx
        exact ⟨a, List.mem_cons_of_mem _ hmem, hax⟩

/-- Where elements with matching keys are read to the same end, so are matching lists. -/
theorem mapM_of_map_eq {key key' : α → γ} {u : β → δ} (h : as.mapM f = .ok xs)
    (hkey : as'.map key = as.map key')
    (hf : ∀ a ∈ as, ∀ x ∈ xs, f a = .ok x → ∀ a', key a' = key' a → ∃ y, f a' = .ok y ∧ u y = u x) :
    ∃ ys, as'.mapM f = .ok ys ∧ ys.map u = xs.map u := by
  simp only [mapM_eq_ok_iff] at h ⊢
  induction h generalizing as' with
  | nil => exact ⟨[], by simp_all⟩
  | @cons a x as xs hax hrest ih =>
      obtain ⟨a', as', rfl, ha', has'⟩ := List.map_eq_cons_iff.mp hkey
      obtain ⟨y, hy, hyx⟩ := hf a List.mem_cons_self x List.mem_cons_self hax a' ha'
      obtain ⟨ys, hys, hysx⟩ := ih has' fun b hb z hz ↦
        hf b (List.mem_cons_of_mem a hb) z (List.mem_cons_of_mem x hz)
      exact ⟨y :: ys, .cons hy hys, by rw [List.map_cons, List.map_cons, hyx, hysx]⟩

end Traversal

/-! ## Without line numbers -/

def Item.unnumbered (i : Item) : Item := { i with line := 0 }

def Symlink.unnumbered (l : Symlink) : Symlink := { l with line := 0 }

def Executable.unnumbered (x : Executable) : Executable := { x with line := 0 }

def CronJob.unnumbered (j : CronJob) : CronJob := { j with line := 0 }

/-- Contents without the places of the lines that declare them. -/
def Contents.unnumbered : Contents → Contents
  | .packages xs => .packages (xs.map Item.unnumbered)
  | .files xs => .files (xs.map Item.unnumbered)
  | .directories xs => .directories (xs.map Item.unnumbered)
  | .services xs => .services (xs.map Item.unnumbered)
  | .symlinks xs => .symlinks (xs.map Symlink.unnumbered)
  | .commands xs => .commands (xs.map Executable.unnumbered)
  | .scripts xs => .scripts (xs.map Executable.unnumbered)
  | .cronjobs xs => .cronjobs (xs.map CronJob.unnumbered)
  | c => c

/-- A document without the places of the lines that declare its parts. -/
def Document.unnumbered (d : Document) : Document where
  kind := d.kind
  name := d.name
  description := d.description
  readme := d.readme
  includes := d.includes
  sysctl := d.sysctl
  packages := d.packages.map Item.unnumbered
  files := d.files.map Item.unnumbered
  directories := d.directories.map Item.unnumbered
  services := d.services.map Item.unnumbered
  symlinks := d.symlinks.map Symlink.unnumbered
  commands := d.commands.map Executable.unnumbered
  scripts := d.scripts.map Executable.unnumbered
  cronjobs := d.cronjobs.map CronJob.unnumbered

namespace Document

variable {cs cs' : List Contents} {ss : List Section} {d : Document} {named : Bool}

theorem identity?_unnumbered (cs : List Contents) :
    identity? (cs.map Contents.unnumbered) = identity? cs := by
  induction cs with
  | nil => rfl
  | cons c cs ih =>
      rw [identity?, identity?, List.map_cons, List.findSome?_cons, List.findSome?_cons, ← identity?,
        ← identity?, ih]
      cases c <;> rfl

theorem descriptions_unnumbered (cs : List Contents) :
    descriptions (cs.map Contents.unnumbered) = descriptions cs := by
  rw [descriptions, descriptions, List.filterMap_map]
  refine congrArg (List.filterMap · cs) (funext fun c ↦ ?_)
  cases c <;> rfl

theorem readmes_unnumbered (cs : List Contents) :
    readmes (cs.map Contents.unnumbered) = readmes cs := by
  rw [readmes, readmes, List.filterMap_map]
  refine congrArg (List.filterMap · cs) (funext fun c ↦ ?_)
  cases c <;> rfl

/-- Line numbers do not matter where contents are put together. -/
theorem unnumbered_gather (kind : DocumentKind) (name description : Text) (cs : List Contents) :
    (gather kind name description cs).unnumbered =
      gather kind name description (cs.map Contents.unnumbered) := by
  have hpart : ∀ {α : Type} (f : Contents → List α) (u : α → α),
      (∀ c, f c.unnumbered = (f c).map u) →
      (cs.flatMap f).map u = (cs.map Contents.unnumbered).flatMap f := by
    intro α f u hf
    rw [List.map_flatMap, List.flatMap_map]
    exact congrArg (List.flatMap · cs) (funext fun c ↦ (hf c).symm)
  have hsame : ∀ {α : Type} (f : Contents → List α), (∀ c, f c.unnumbered = f c) →
      cs.flatMap f = (cs.map Contents.unnumbered).flatMap f := by
    intro α f hf
    simpa using hpart f id (by simpa using hf)
  simp only [gather, unnumbered, readmes_unnumbered, Document.mk.injEq, true_and]
  refine ⟨?_, ?_, ?_, ?_, ?_, ?_, ?_, ?_, ?_, ?_⟩
  · exact hsame _ fun c ↦ by cases c <;> rfl
  · refine congrArg (fun xs : List Setting ↦ Table.ofList (xs.map fun s ↦ (s.key, s.value))) ?_
    exact hsame _ fun c ↦ by cases c <;> rfl
  all_goals exact hpart _ _ fun c ↦ by cases c <;> rfl

/-! ## When a document is read -/

/-- Whether no identity section follows another. -/
def IdentifiedOnce (named : Bool) : List Keyword → Prop
  | [] => True
  | k :: ks => (k.isIdentity && named) = false ∧ IdentifiedOnce (named || k.isIdentity) ks

/-- Sections are read when each of them is and no identity section follows another. -/
theorem readSections_eq_ok_iff :
    readSections named ss = .ok cs ↔
      IdentifiedOnce named (ss.map Section.keyword) ∧ ss.mapM Section.contents = .ok cs := by
  rw [mapM_eq_ok_iff]
  induction ss generalizing named cs with
  | nil => simp [readSections, IdentifiedOnce, eq_comm]
  | cons s ss ih =>
      rw [readSections, List.map_cons, IdentifiedOnce, List.forall₂_cons_left_iff]
      cases hid : s.keyword.isIdentity && named with
      | true => simp
      | false =>
          cases hs : s.contents with
          | error e => simp
          | ok c =>
              cases hss : readSections (named || s.keyword.isIdentity) ss with
              | error e =>
                  have hno : ∀ ys, ¬ (IdentifiedOnce (named || s.keyword.isIdentity) (ss.map Section.keyword) ∧
                      List.Forall₂ (fun s c ↦ s.contents = .ok c) ss ys) := fun ys h ↦ by
                    rw [← ih, hss] at h
                    cases h
                  simp only [Bool.false_eq_true, if_false, reduceCtorEq, false_iff]
                  rintro ⟨⟨-, honce⟩, x, xs, -, hxs, -⟩
                  exact hno xs ⟨honce, hxs⟩
              | ok ys =>
                  have hiff : ∀ zs, (IdentifiedOnce (named || s.keyword.isIdentity) (ss.map Section.keyword) ∧
                      List.Forall₂ (fun s c ↦ s.contents = .ok c) ss zs) ↔ ys = zs := fun zs ↦ by
                    rw [← ih, hss, Except.ok.injEq]
                  simp only [Bool.false_eq_true, if_false, Except.ok.injEq, true_and]
                  constructor
                  · rintro rfl
                    obtain ⟨honce, hxs⟩ := (hiff ys).mpr rfl
                    exact ⟨honce, c, ys, rfl, hxs, rfl⟩
                  · rintro ⟨honce, x, xs, rfl, hxs, rfl⟩
                    rw [(hiff xs).mp ⟨honce, hxs⟩]

/-- The description that some contents give. -/
def prose (cs : List Contents) : Text := Text.joinWith ['\n'] (descriptions cs)

/-- Sections describe a document when they are read, name it and say something about it. -/
theorem ofSections_eq_ok_iff :
    ofSections ss = .ok d ↔
      ∃ cs, readSections false ss = .ok cs ∧ ∃ kind name, identity? cs = some (kind, name) ∧
        Text.trim (prose cs) ≠ [] ∧ d = gather kind name (prose cs) cs := by
  unfold ofSections
  cases readSections false ss with
  | error e => simp
  | ok cs =>
      cases hid : identity? cs with
      | none => simp [hid]
      | some p =>
          obtain ⟨kind, name⟩ := p
          simp only [Except.ok.injEq, exists_eq_left', hid, Option.some.injEq, Prod.mk.injEq]
          by_cases hempty : Text.trim (prose cs) = []
          · rw [if_pos (by simpa [prose] using hempty)]
            simp [hempty]
          · rw [if_neg (by simpa [prose] using hempty), Except.ok.injEq]
            constructor
            · rintro rfl
              exact ⟨kind, name, ⟨rfl, rfl⟩, hempty, rfl⟩
            · rintro ⟨_, _, ⟨rfl, rfl⟩, -, rfl⟩
              rfl

end Document

end Saltern
