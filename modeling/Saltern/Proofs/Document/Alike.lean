import Saltern.Document.Assembly
import Saltern.Diagnostic
import Saltern.Proofs.Document.Reading

/-!
# Sections with one verdict

Sections of the same keywords whose entries are read alike are accepted together or rejected for the
same reason, wherever their lines stand and however their entries are spelled.
-/

namespace Saltern

open Text

/-- Faults for which the same is said, but for the place and the words: the same kind, code and section. -/
structure Fault.Alike (e e' : Fault) : Prop where
  kind : e.diagnostic.kind = e'.diagnostic.kind
  code : e.diagnostic.code = e'.diagnostic.code
  sectionName : e.diagnostic.sectionName? = e'.diagnostic.sectionName?

theorem Fault.Alike.symm {e e' : Fault} (h : e.Alike e') : e'.Alike e :=
  ⟨h.kind.symm, h.code.symm, h.sectionName.symm⟩

theorem Fault.Alike.trans {e e' e'' : Fault} (h : e.Alike e') (h' : e'.Alike e'') : e.Alike e'' :=
  ⟨h.kind.trans h'.kind, h.code.trans h'.code, h.sectionName.trans h'.sectionName⟩

/-- A result that is a fault like a given one. -/
def Fault.Recurs {α : Type} (e : Fault) (r : Except Fault α) : Prop := ∃ e', r = .error e' ∧ e'.Alike e

/-- Results that are both there, and the same as far as `u` sees, or both faults for the same reason. -/
inductive SameVerdict {α β : Type} (u : α → β) : Except Fault α → Except Fault α → Prop
  | ok {x y : α} (h : u x = u y) : SameVerdict u (.ok x) (.ok y)
  | error {e e' : Fault} (h : e.Alike e') : SameVerdict u (.error e) (.error e')

namespace SameVerdict

variable {α β γ δ : Type} {u : α → β} {r r' : Except Fault α} {f : γ → Except Fault α} {as as' : List γ}

/-- Results of one verdict, taken apart. -/
theorem exists_or (h : SameVerdict u r r') :
    (∃ e e', r = .error e ∧ r' = .error e' ∧ e.Alike e') ∨ ∃ x y, r = .ok x ∧ r' = .ok y ∧ u x = u y := by
  cases h with
  | ok h => exact .inr ⟨_, _, rfl, rfl, h⟩
  | error h => exact .inl ⟨_, _, rfl, rfl, h⟩

theorem map {g : α → γ} {v : γ → δ} (h : SameVerdict u r r') (hg : ∀ x y, u x = u y → v (g x) = v (g y)) :
    SameVerdict v (r.map g) (r'.map g) := by
  cases h with
  | ok h => exact .ok (hg _ _ h)
  | error h => exact .error h

theorem mapM (h : List.Forall₂ (fun a a' ↦ SameVerdict u (f a) (f a')) as as') :
    SameVerdict (List.map u) (as.mapM f) (as'.mapM f) := by
  induction h with
  | nil => exact .ok rfl
  | @cons a a' as as' ha _ ih =>
      rw [List.mapM_cons, List.mapM_cons]
      obtain ⟨e, e', hfa, hfa', he⟩ | ⟨x, y, hfa, hfa', hxy⟩ := ha.exists_or <;> rw [hfa, hfa']
      · exact .error he
      · obtain ⟨e, e', hm, hm', he⟩ | ⟨xs, ys, hm, hm', hs⟩ := ih.exists_or <;> rw [hm, hm']
        · exact .error he
        · exact .ok (congrArg₂ List.cons hxy hs)

/-- A fault recurs in both or in neither. -/
theorem recurs_iff (h : SameVerdict u r r') (e : Fault) : e.Recurs r ↔ e.Recurs r' := by
  cases h with
  | ok h => exact iff_of_false nofun nofun
  | error h =>
      constructor
      · rintro ⟨_, hr, he⟩
        cases hr
        exact ⟨_, rfl, h.symm.trans he⟩
      · rintro ⟨_, hr, he⟩
        cases hr
        exact ⟨_, rfl, h.trans he⟩

end SameVerdict

/-- Whether two entries of a section are read alike. -/
def Keyword.ReadsAlike (k : Keyword) (t t' : Text) : Prop :=
  match k with
  | .packages | .files | .directories | .services => ItemLine.ofText t = ItemLine.ofText t'
  | .symlinks => LinkLine.ofText? t = LinkLine.ofText? t'
  | .sysctl => Setting.ofText? t = Setting.ofText? t'
  | _ => t = t'

/-- What a document's verdict depends on once a section is read: an identity, or some description. -/
def Contents.essence : Contents → Option ((DocumentKind × Text) ⊕ Text)
  | .identity kind name => some (.inl (kind, name))
  | .description t => some (.inr t)
  | _ => none

/-! ## One entry -/

namespace Section

variable {s s' : Section} {l l' : Line} {k : Keyword} {kind : ItemKind}

theorem sameVerdict_item (h : ItemLine.ofText l.content = ItemLine.ofText l'.content) :
    SameVerdict (fun _ ↦ ()) (item k kind l) (item k kind l') := by
  unfold item
  rw [h]
  split
  · exact .error ⟨rfl, rfl, rfl⟩
  · split
    · exact .error ⟨rfl, rfl, rfl⟩
    · exact .ok rfl
  · split
    · exact .error ⟨rfl, rfl, rfl⟩
    · split
      · exact .ok rfl
      · split
        · exact .error ⟨rfl, rfl, rfl⟩
        · split
          · exact .error ⟨rfl, rfl, rfl⟩
          · exact .ok rfl

theorem sameVerdict_symlink (h : LinkLine.ofText? l.content = LinkLine.ofText? l'.content) :
    SameVerdict (fun _ ↦ ()) (symlink l) (symlink l') := by
  unfold symlink
  rw [h]
  split
  · exact .ok rfl
  · exact .error ⟨rfl, rfl, rfl⟩

theorem sameVerdict_setting (h : Setting.ofText? l.content = Setting.ofText? l'.content) :
    SameVerdict (fun _ ↦ ()) (setting l) (setting l') := by
  unfold setting
  rw [h]
  split
  · exact .error ⟨rfl, rfl, rfl⟩
  · split
    · exact .error ⟨rfl, rfl, rfl⟩
    · exact .ok rfl

theorem sameVerdict_cronjob (h : l.content = l'.content) :
    SameVerdict (fun _ ↦ ()) (cronjob l) (cronjob l') := by
  unfold cronjob
  rw [h]
  split
  · exact .ok rfl
  · exact .error ⟨rfl, rfl, rfl⟩

/-! ## One section -/

theorem forall₂_entries {R : Text → Text → Prop} (h : List.Forall₂ R s.values s'.values) :
    List.Forall₂ (fun l l' : Line ↦ R l.content l'.content) s.entries s'.entries := by
  rwa [values, values, List.forall₂_map_left_iff, List.forall₂_map_right_iff] at h

theorem sameVerdict_entries {α : Type} {f : Line → Except Fault α} {g : List α → Contents}
    {R : Text → Text → Prop} (h : List.Forall₂ R s.values s'.values)
    (hf : ∀ l l', R l.content l'.content → SameVerdict (fun _ ↦ ()) (f l) (f l'))
    (hg : ∀ xs, (g xs).essence = none) :
    SameVerdict Contents.essence ((s.entries.mapM f).map g) ((s'.entries.mapM f).map g) := by
  have hlines := (forall₂_entries h).imp fun l l' hl ↦ hf l l' hl
  exact (SameVerdict.mapM hlines).map fun xs ys _ ↦ (hg xs).trans (hg ys).symm

/-- The name of an identity section depends on its entries alone. -/
theorem sameVerdict_name (hkey : s.keyword = s'.keyword) (h : s.values = s'.values) :
    SameVerdict id s.name s'.name := by
  have hlines := forall₂_entries (List.forall₂_eq_eq_eq ▸ h)
  unfold name
  rw [hkey]
  generalize s.entries = ls at hlines ⊢
  generalize s'.entries = ls' at hlines ⊢
  cases hlines with
  | nil => exact .error ⟨rfl, rfl, rfl⟩
  | cons hl hrest =>
      cases hrest with
      | nil =>
          dsimp only
          rw [hl]
          split
          · exact .ok rfl
          · exact .error ⟨rfl, rfl, rfl⟩
      | cons _ _ => exact .error ⟨rfl, rfl, rfl⟩

/-- Sections of one keyword whose entries are read alike are accepted together. -/
theorem sameVerdict_contents (hkey : s.keyword = s'.keyword)
    (h : List.Forall₂ s.keyword.ReadsAlike s.values s'.values) :
    SameVerdict Contents.essence s.contents s'.contents := by
  unfold contents items symlinks settings cronjobs
  rw [← hkey]
  have hsame : (∀ t t', s.keyword.ReadsAlike t t' → t = t') → s.values = s'.values := by
    intro hk
    rw [← List.forall₂_eq_eq_eq]
    exact h.imp hk
  cases hk : s.keyword with
  | rolename | elementname =>
      have hvalues : s.values = s'.values := hsame (by rw [hk]; exact fun _ _ ht ↦ ht)
      exact (sameVerdict_name hkey hvalues).map fun x y hxy ↦ by rw [show x = y from hxy]
  | description =>
      have hvalues : s.values = s'.values := hsame (by rw [hk]; exact fun _ _ ht ↦ ht)
      exact .ok (by rw [prose, prose, hvalues])
  | readme | includes | commands | scripts => exact .ok rfl
  | packages | files | directories | services =>
      rw [hk] at h
      exact sameVerdict_entries h (fun _ _ ↦ sameVerdict_item) fun _ ↦ rfl
  | symlinks =>
      rw [hk] at h
      exact sameVerdict_entries h (fun _ _ ↦ sameVerdict_symlink) fun _ ↦ rfl
  | sysctl =>
      rw [hk] at h
      exact sameVerdict_entries h (fun _ _ ↦ sameVerdict_setting) fun _ ↦ rfl
  | cronjobs =>
      rw [hk] at h
      exact sameVerdict_entries h (fun _ _ ↦ sameVerdict_cronjob) fun _ ↦ rfl

end Section

/-! ## All sections -/

namespace Document

variable {ss ss' : List Section} {cs cs' : List Contents}

theorem identity?_of_essence (h : cs.map Contents.essence = cs'.map Contents.essence) :
    identity? cs = identity? cs' := by
  have hsee : ∀ cs, identity? cs =
      (cs.map Contents.essence).findSome? fun e ↦ e.bind Sum.getLeft? := by
    intro cs
    rw [identity?, List.findSome?_map]
    congr 1
    funext c
    cases c <;> rfl
  rw [hsee, hsee, h]

theorem descriptions_of_essence (h : cs.map Contents.essence = cs'.map Contents.essence) :
    descriptions cs = descriptions cs' := by
  have hsee : ∀ cs, descriptions cs = (cs.map Contents.essence).filterMap fun e ↦
      (e.bind Sum.getRight?).filter fun t ↦ !t.isEmpty := by
    intro cs
    rw [descriptions, List.filterMap_map]
    congr 1
    funext c
    cases c with
    | description t => cases t <;> rfl
    | _ => rfl
  rw [hsee, hsee, h]

/-- Sections that are alike one by one. -/
def SectionsAlike (ss ss' : List Section) : Prop :=
  List.Forall₂ (fun s s' ↦ s.keyword = s'.keyword ∧ List.Forall₂ s.keyword.ReadsAlike s.values s'.values) ss ss'

theorem sameVerdict_readSections (named : Bool) (h : SectionsAlike ss ss') :
    SameVerdict (List.map Contents.essence) (readSections named ss) (readSections named ss') := by
  induction h generalizing named with
  | nil => exact .ok rfl
  | @cons s s' ss ss' hs _ ih =>
      obtain ⟨hkey, hvalues⟩ := hs
      have hcontents := Section.sameVerdict_contents hkey hvalues
      rw [readSections, readSections, ← hkey]
      split
      · exact .error ⟨rfl, rfl, rfl⟩
      · obtain ⟨e, e', hs, hs', he⟩ | ⟨c, c', hs, hs', hc⟩ := hcontents.exists_or <;> rw [hs, hs'] <;>
          dsimp only
        · exact .error he
        · obtain ⟨e, e', hr, hr', he⟩ | ⟨xs, ys, hr, hr', hxs⟩ :=
            (ih (named || s.keyword.isIdentity)).exists_or <;> rw [hr, hr']
          · exact .error he
          · exact .ok (congrArg₂ List.cons hc hxs)

/-- Sections that are alike describe a document together, or are rejected for the same reason. -/
theorem sameVerdict_ofSections (h : SectionsAlike ss ss') :
    SameVerdict (fun _ ↦ ()) (ofSections ss) (ofSections ss') := by
  unfold ofSections
  obtain ⟨e, e', hr, hr', he⟩ | ⟨cs, cs', hr, hr', hcs⟩ := (sameVerdict_readSections false h).exists_or <;>
    rw [hr, hr'] <;> dsimp only
  · exact .error he
  · rw [identity?_of_essence hcs, descriptions_of_essence hcs]
    cases identity? cs' with
    | none => exact .error ⟨rfl, rfl, rfl⟩
    | some p =>
        dsimp only
        split
        · exact .error ⟨rfl, rfl, rfl⟩
        · exact .ok rfl

end Document

end Saltern
