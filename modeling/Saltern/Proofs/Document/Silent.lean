import Saltern.Proofs.Document.Reading

/-!
# Sections without entries

A section that only lists things and lists none of them adds nothing to a document, wherever the document's
identity and its texts come from.
-/

namespace Saltern

/-- Contents that list nothing. -/
inductive Contents.IsEmpty : Contents → Prop
  | includes : IsEmpty (.includes [])
  | sysctl : IsEmpty (.sysctl [])
  | packages : IsEmpty (.packages [])
  | files : IsEmpty (.files [])
  | directories : IsEmpty (.directories [])
  | services : IsEmpty (.services [])
  | symlinks : IsEmpty (.symlinks [])
  | commands : IsEmpty (.commands [])
  | scripts : IsEmpty (.scripts [])
  | cronjobs : IsEmpty (.cronjobs [])

/-- The keywords of sections that list things. -/
def Keyword.IsList (k : Keyword) : Prop := k ∉ [.rolename, .elementname, .description, .readme]

instance (k : Keyword) : Decidable k.IsList := inferInstanceAs (Decidable (¬ _))

theorem Keyword.IsList.isIdentity {k : Keyword} (h : k.IsList) : k.isIdentity = false := by
  cases k <;> first | rfl | exact absurd h (by decide)

/-- A section that lists things, without an entry. -/
structure Section.IsSilent (s : Section) : Prop where
  keyword : s.keyword.IsList
  entries : s.entries = []

/-- Such a section is read, and lists nothing. -/
theorem Section.IsSilent.exists_contents {s : Section} (h : s.IsSilent) :
    ∃ c, s.contents = .ok c ∧ c.IsEmpty := by
  have hkey := h.keyword
  have hitems : ∀ kind, s.items kind = .ok [] := by
    intro kind
    rw [items, h.entries]
    rfl
  unfold Section.contents
  cases hk : s.keyword with
  | rolename | elementname | description | readme =>
      rw [hk] at hkey
      exact absurd hkey (by decide)
  | includes => exact ⟨.includes [], by rw [values, h.entries]; rfl, .includes⟩
  | sysctl => exact ⟨.sysctl [], by rw [settings, h.entries]; rfl, .sysctl⟩
  | packages => exact ⟨.packages [], congrArg (Except.map Contents.packages) (hitems .package), .packages⟩
  | files => exact ⟨.files [], congrArg (Except.map Contents.files) (hitems .file), .files⟩
  | directories => exact ⟨.directories [], congrArg (Except.map Contents.directories) (hitems .directory), .directories⟩
  | services => exact ⟨.services [], congrArg (Except.map Contents.services) (hitems .service), .services⟩
  | symlinks => exact ⟨.symlinks [], by rw [symlinks, h.entries]; rfl, .symlinks⟩
  | commands => exact ⟨.commands [], by rw [executables, h.entries]; rfl, .commands⟩
  | scripts => exact ⟨.scripts [], by rw [executables, h.entries]; rfl, .scripts⟩
  | cronjobs => exact ⟨.cronjobs [], by rw [cronjobs, h.entries]; rfl, .cronjobs⟩

namespace Document

variable {ss qs : List Section} {cs es : List Contents} {named : Bool}

/-! ## Reading on -/

theorem exists_readSections_of_silent (h : ∀ s ∈ qs, s.IsSilent) :
    ∃ es, (∀ named, readSections named qs = .ok es) ∧ ∀ c ∈ es, c.IsEmpty := by
  induction qs with
  | nil => exact ⟨[], fun _ ↦ rfl, nofun⟩
  | cons s qs ih =>
      obtain ⟨hs, hqs⟩ := List.forall_mem_cons.mp h
      obtain ⟨es, hread, hes⟩ := ih hqs
      obtain ⟨c, hc, hempty⟩ := hs.exists_contents
      refine ⟨c :: es, fun named ↦ ?_, List.forall_mem_cons.mpr ⟨hempty, hes⟩⟩
      rw [readSections, hs.keyword.isIdentity, Bool.false_and, if_neg Bool.false_ne_true, hc, Bool.or_false, hread]

/-- Sections behind others are read after them. -/
theorem readSections_append (hqs : ∀ named, readSections named qs = .ok es) :
    readSections named (ss ++ qs) = (readSections named ss).map (· ++ es) := by
  induction ss generalizing named with
  | nil => exact hqs named
  | cons s ss ih =>
      rw [List.cons_append, readSections, readSections]
      split
      · rfl
      · cases s.contents with
        | error e => rfl
        | ok c =>
            simp only [ih]
            cases readSections (named || s.keyword.isIdentity) ss <;> rfl

/-! ## Putting together -/

section Parts

variable {α : Type}

/-- What is picked out of contents is the same with empty ones behind them. -/
theorem filterMap_append_empty (h : ∀ c ∈ es, c.IsEmpty) {f : Contents → Option α} (hf : ∀ c, c.IsEmpty → f c = none) :
    (cs ++ es).filterMap f = cs.filterMap f := by
  have hnone : es.filterMap f = [] := List.filterMap_eq_nil_iff.mpr fun c hc ↦ hf c (h c hc)
  rw [List.filterMap_append, hnone, List.append_nil]

/-- And so is what they list. -/
theorem flatMap_append_empty (h : ∀ c ∈ es, c.IsEmpty) {f : Contents → List α} (hf : ∀ c, c.IsEmpty → f c = []) :
    (cs ++ es).flatMap f = cs.flatMap f := by
  have hnone : es.flatMap f = [] := List.flatMap_eq_nil_iff.mpr fun c hc ↦ hf c (h c hc)
  rw [List.flatMap_append, hnone, List.append_nil]

end Parts

theorem identity?_append_empty (h : ∀ c ∈ es, c.IsEmpty) : identity? (cs ++ es) = identity? cs := by
  rw [identity?, identity?, ← List.head?_filterMap, ← List.head?_filterMap, filterMap_append_empty h]
  intro c hc
  cases hc <;> rfl

theorem descriptions_append_empty (h : ∀ c ∈ es, c.IsEmpty) : descriptions (cs ++ es) = descriptions cs :=
  filterMap_append_empty h fun c hc ↦ by cases hc <;> rfl

theorem readmes_append_empty (h : ∀ c ∈ es, c.IsEmpty) : readmes (cs ++ es) = readmes cs :=
  filterMap_append_empty h fun c hc ↦ by cases hc <;> rfl

theorem gather_append_empty (h : ∀ c ∈ es, c.IsEmpty) (kind : DocumentKind) (name description : Text) :
    gather kind name description (cs ++ es) = gather kind name description cs := by
  simp only [gather, readmes_append_empty h, Document.mk.injEq, true_and]
  refine ⟨?_, ?_, ?_, ?_, ?_, ?_, ?_, ?_, ?_, ?_⟩
  -- The settings are a table of what is listed, everything else is listed as it is.
  case refine_2 =>
    refine congrArg (fun xs : List Setting ↦ Table.ofList (xs.map fun s ↦ (s.key, s.value))) ?_
    exact flatMap_append_empty h fun c hc ↦ by cases hc <;> rfl
  all_goals exact flatMap_append_empty h fun c hc ↦ by cases hc <;> rfl

theorem descriptionLine_append_silent (h : ∀ s ∈ qs, s.IsSilent) :
    descriptionLine (ss ++ qs) = descriptionLine ss := by
  have hnone : qs.find? (·.keyword = .description) = none := by
    rw [List.find?_eq_none]
    intro s hs hk
    have hlist := (h s hs).keyword
    rw [of_decide_eq_true hk] at hlist
    exact absurd hlist (by decide)
  rw [descriptionLine, List.find?_append, hnone, Option.or_none, descriptionLine]

/-- Sections that list nothing make no difference behind others, whether these describe a document or not. -/
theorem ofSections_append_silent (h : ∀ s ∈ qs, s.IsSilent) : ofSections (ss ++ qs) = ofSections ss := by
  obtain ⟨es, hqs, hes⟩ := exists_readSections_of_silent h
  rw [ofSections, ofSections, readSections_append hqs]
  cases readSections false ss with
  | error e => rfl
  | ok cs =>
      simp only [Except.map, identity?_append_empty hes, descriptions_append_empty hes, gather_append_empty hes,
        descriptionLine_append_silent h]

end Document

end Saltern
