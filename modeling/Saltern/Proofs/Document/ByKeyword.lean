import Saltern.Proofs.Brinefile.PrintedEntries
import Saltern.Proofs.Document.Accepted
import Saltern.Proofs.Document.Provenance
import Saltern.Proofs.Document.Verdict

/-!
# Documents by keyword

What sections describe depends on the sections of each keyword on their own. How the sections of different
keywords are interleaved makes no difference, and where entries are read one by one it makes none
either whether they stand in one section or in two.
-/

namespace Saltern

open Text
open Brinefile (entriesOf entriesOf_cons)

namespace Text

variable {sep : Text} {ts : List Text}

theorem joinWith_eq_nil_iff (h : ∀ t ∈ ts, t ≠ []) : joinWith sep ts = [] ↔ ts = [] := by
  constructor
  · intro hnil
    rcases ts with _ | ⟨t, _ | ⟨u, us⟩⟩
    · rfl
    · exact absurd hnil (h t List.mem_cons_self)
    · have ht := h t List.mem_cons_self
      simp [ht] at hnil
  · rintro rfl
    rfl

/-- Texts may be joined in stages, if what is empty is left out. -/
theorem joinWith_map_joinWith {tss : List (List Text)} (h : ∀ ts ∈ tss, ∀ t ∈ ts, t ≠ []) :
    joinWith sep ((tss.map (joinWith sep)).filter (!·.isEmpty)) = joinWith sep tss.flatten := by
  induction tss with
  | nil => rfl
  | cons ts tss ih =>
      obtain ⟨hts, htss⟩ := List.forall_mem_cons.mp h
      rw [List.map_cons, List.flatten_cons]
      by_cases hempty : ts = []
      · rw [hempty, List.filter_cons_of_neg (by simp), List.nil_append, ih htss]
      have hjoined : joinWith sep ts ≠ [] := mt (joinWith_eq_nil_iff hts).mp hempty
      have hfilter : joinWith sep ((tss.map (joinWith sep)).filter (!·.isEmpty)) = [] ↔
          (tss.map (joinWith sep)).filter (!·.isEmpty) = [] :=
        joinWith_eq_nil_iff fun t ht ↦ by simpa using (List.mem_filter.mp ht).2
      have hflatten : joinWith sep tss.flatten = [] ↔ tss.flatten = [] :=
        joinWith_eq_nil_iff fun t ht ↦ by
          obtain ⟨us, hus, ht⟩ := List.mem_flatten.mp ht
          exact htss us hus t ht
      rw [List.filter_cons_of_pos (by simpa using hjoined)]
      -- A separator is written only where something stands on both its sides.
      by_cases hrest : tss.flatten = []
      · rw [ih htss, hflatten] at hfilter
        rw [hrest, List.append_nil, hfilter.mp hrest, joinWith_singleton]
      · have hne : (tss.map (joinWith sep)).filter (!·.isEmpty) ≠ [] := by
          rwa [Ne, ← hfilter, ih htss, hflatten]
        rw [joinWith_append hempty hrest, ← ih htss]
        exact joinWith_append (List.cons_ne_nil _ []) hne

end Text

namespace Brinefile

variable {k : Keyword} {ss : List Section} {l : Line}

theorem mem_entriesOf : l ∈ entriesOf k ss ↔ ∃ s ∈ ss, s.keyword = k ∧ l ∈ s.entries := by
  simp [entriesOf, and_assoc]

theorem entriesOf_append (ss ss' : List Section) :
    entriesOf k (ss ++ ss') = entriesOf k ss ++ entriesOf k ss' := by
  simp [entriesOf]

theorem entriesOf_eq_nil (h : ∀ s ∈ ss, s.keyword ≠ k) : entriesOf k ss = [] := by
  rw [List.eq_nil_iff_forall_not_mem]
  intro l hl
  obtain ⟨s, hs, hk, -⟩ := mem_entriesOf.mp hl
  exact h s hs hk

end Brinefile

namespace Document

variable {α : Type} {ss ss' : List Section} {cs cs' : List Contents} {s : Section} {c : Contents} {d : Document}
  {k : Keyword} {part : Contents → List α}

/-- Sections that declare the same: they have the same sections of identity and of readme, and for every
keyword the same entries, each in one order. -/
structure DeclareAlike (ss ss' : List Section) : Prop where
  whole : ∀ k : Keyword, k.isIdentity = true ∨ k = .readme →
    ss.filter (·.keyword = k) = ss'.filter (·.keyword = k)
  entries : ∀ k, entriesOf k ss = entriesOf k ss'

theorem DeclareAlike.symm (h : DeclareAlike ss ss') : DeclareAlike ss' ss :=
  ⟨fun k hk ↦ (h.whole k hk).symm, fun k ↦ (h.entries k).symm⟩

/-! ## Whether they describe a document -/

theorem length_filter_isIdentity (ss : List Section) :
    (ss.filter (·.keyword.isIdentity)).length =
      (ss.filter (·.keyword = .rolename)).length + (ss.filter (·.keyword = .elementname)).length := by
  induction ss with
  | nil => rfl
  | cons s ss ih =>
      rw [List.filter_cons, List.filter_cons, List.filter_cons]
      cases hk : s.keyword with
      | rolename | elementname =>
          rw [show Keyword.isIdentity _ = true from rfl]
          simp only [if_true, reduceCtorEq, decide_true, decide_false, Bool.false_eq_true, if_false,
            List.length_cons]
          omega
      | _ => exact ih

theorem DeclareAlike.mem_of_isIdentity (h : DeclareAlike ss ss') (hs : s ∈ ss) (hk : s.keyword.isIdentity = true) :
    s ∈ ss' := by
  have hmem : s ∈ ss.filter (·.keyword = s.keyword) := List.mem_filter.mpr ⟨hs, by simp⟩
  rw [h.whole s.keyword (.inl hk)] at hmem
  exact (List.mem_filter.mp hmem).1

theorem DeclareAlike.describes (h : DeclareAlike ss ss') (hd : Describes ss) : Describes ss' where
  identity := by
    obtain ⟨s, hs⟩ := hd.identity
    have hone : (ss'.filter (·.keyword.isIdentity)).length = 1 := by
      rw [length_filter_isIdentity, ← h.whole .rolename (.inl rfl), ← h.whole .elementname (.inl rfl),
        ← length_filter_isIdentity, hs]
      rfl
    exact List.length_eq_one_iff.mp hone
  fit := by
    intro s hs
    refine ⟨fun hk ↦ (hd.fit s (h.symm.mem_of_isIdentity hs hk)).name hk, fun l hl ↦ ?_⟩
    have hmem : l ∈ entriesOf s.keyword ss := by
      rw [h.entries]
      exact Brinefile.mem_entriesOf.mpr ⟨s, hs, rfl, hl⟩
    obtain ⟨r, hr, hk, hl⟩ := Brinefile.mem_entriesOf.mp hmem
    exact hk ▸ (hd.fit r hr).entry l hl
  description := by
    obtain ⟨s, hs, hk, hne⟩ := hd.description
    obtain ⟨l, hl⟩ := List.exists_mem_of_ne_nil _ hne
    have hmem : l ∈ entriesOf .description ss' := by
      rw [← h.entries]
      exact Brinefile.mem_entriesOf.mpr ⟨s, hs, hk, hl⟩
    obtain ⟨r, hr, hk, hl⟩ := Brinefile.mem_entriesOf.mp hmem
    exact ⟨r, hr, hk, List.ne_nil_of_mem hl⟩

/-! ## What they describe -/

theorem isIdentity_of_contents {kind : DocumentKind} {name : Text} (h : s.contents = .ok (.identity kind name)) :
    s.keyword.isIdentity = true := by
  rw [← Section.keyword_contents h]
  cases kind <;> rfl

section Parts

variable (h : List.Forall₂ (fun s c ↦ Section.contents s = .ok c) ss cs)

include h

/-- The texts that the sections of a keyword give. -/
theorem filterMap_contents {pick : Contents → Option Text} {read : Section → Text}
    (hpick : ∀ (s : Section) (c : Contents), s.keyword = k → s.contents = .ok c →
      pick c = if (read s).isEmpty then none else some (read s))
    (hother : ∀ c : Contents, c.keyword ≠ k → pick c = none) :
    cs.filterMap pick = ((ss.filter (·.keyword = k)).map read).filter (!·.isEmpty) := by
  induction h with
  | nil => rfl
  | @cons s c ss cs hc _ ih =>
      rw [List.filterMap_cons]
      by_cases hk : s.keyword = k
      · rw [hpick s c hk hc, List.filter_cons_of_pos (by simpa using hk), List.map_cons, List.filter_cons, ih]
        cases (read s).isEmpty <;> rfl
      · rw [hother c (Section.keyword_contents hc ▸ hk), List.filter_cons_of_neg (by simpa using hk), ih]

theorem readmes_eq :
    readmes cs = ((ss.filter (·.keyword = .readme)).map Section.verbatim).filter (!·.isEmpty) := by
  refine filterMap_contents h (fun s c hk hc ↦ ?_) fun c hc ↦ ?_
  · rw [Section.contents, hk] at hc
    cases hc
    rfl
  · cases c <;> first | rfl | exact absurd rfl hc

/-- The description is put together from the entries of its sections, wherever these are cut. -/
theorem prose_eq : prose cs = joinWith ['\n'] ((entriesOf .description ss).map Line.content) := by
  have hdesc : descriptions cs =
      ((ss.filter (·.keyword = .description)).map Section.prose).filter (!·.isEmpty) := by
    refine filterMap_contents h (fun s c hk hc ↦ ?_) fun c hc ↦ ?_
    · rw [Section.contents, hk] at hc
      cases hc
      rfl
    · cases c <;> first | rfl | exact absurd rfl hc
  have hvalues : (entriesOf .description ss).map Line.content =
      ((ss.filter (·.keyword = .description)).map Section.values).flatten := by
    rw [entriesOf, List.map_flatMap, List.flatMap_def]
    rfl
  rw [prose, hdesc, hvalues, ← joinWith_map_joinWith, List.map_map]
  · rfl
  · intro ts hts t ht
    obtain ⟨s, -, rfl⟩ := List.mem_map.mp hts
    exact Section.ne_nil_of_mem_values ht

end Parts

section Alike

variable (hcs : List.Forall₂ (fun s c ↦ Section.contents s = .ok c) ss cs)
  (hcs' : List.Forall₂ (fun s c ↦ Section.contents s = .ok c) ss' cs') (h : DeclareAlike ss ss')

include hcs hcs' h

theorem DeclareAlike.part_eq {R : Line → α → Prop} (hR : Relator.RightUnique R)
    (hpart : ∀ (s : Section) (c : Contents), s.keyword = k → s.contents = .ok c →
      List.Forall₂ R s.entries (part c))
    (hother : ∀ c : Contents, c.keyword ≠ k → part c = []) :
    cs.flatMap part = cs'.flatMap part := by
  have hread := forall₂_part hcs hpart hother
  rw [h.entries k] at hread
  exact hR.forall₂ hread (forall₂_part hcs' hpart hother)

/-- Entries that are read one by one are read alike. -/
theorem DeclareAlike.part_eq_of_mapM {f : Line → Except Fault α} {g : List α → Contents}
    (hc : ∀ s : Section, s.keyword = k → s.contents = (s.entries.mapM f).map g) (hg : ∀ xs, part (g xs) = xs)
    (hother : ∀ c : Contents, c.keyword ≠ k → part c = []) :
    cs.flatMap part = cs'.flatMap part := by
  have hunique : Relator.RightUnique fun l x ↦ f l = .ok x :=
    fun l x y hx hy ↦ Except.ok.inj (hx.symm.trans hy)
  refine h.part_eq hcs hcs' hunique (fun s c hk hsc ↦ ?_) hother
  rw [hc s hk] at hsc
  obtain ⟨xs, hxs, rfl⟩ := map_eq_ok_iff.mp hsc
  rw [hg]
  exact mapM_eq_ok_iff.mp hxs

/-- Entries that are taken as they are, too. -/
theorem DeclareAlike.part_eq_of_map {f : Line → α} {g : List α → Contents}
    (hc : ∀ s : Section, s.keyword = k → s.contents = .ok (g (s.entries.map f))) (hg : ∀ xs, part (g xs) = xs)
    (hother : ∀ c : Contents, c.keyword ≠ k → part c = []) :
    cs.flatMap part = cs'.flatMap part := by
  have hunique : Relator.RightUnique fun l x ↦ f l = x := fun l x y hx hy ↦ hx.symm.trans hy
  refine h.part_eq hcs hcs' hunique (fun s c hk hsc ↦ ?_) hother
  rw [hc s hk] at hsc
  obtain rfl := Except.ok.inj hsc
  rw [hg, List.forall₂_map_right_iff, List.forall₂_same]
  exact fun l _ ↦ rfl

theorem DeclareAlike.gather_eq (kind : DocumentKind) (name description : Text) :
    gather kind name description cs = gather kind name description cs' := by
  have hreadmes : readmes cs = readmes cs' := by
    rw [readmes_eq hcs, readmes_eq hcs', h.whole .readme (.inr rfl)]
  have hsettings : cs.flatMap Contents.settings = cs'.flatMap Contents.settings :=
    h.part_eq_of_mapM hcs hcs' (k := .sysctl) (g := .sysctl)
      (fun s hk ↦ by rw [Section.contents, hk, Section.settings]) (fun _ ↦ rfl)
      fun c hc ↦ by cases c <;> first | rfl | exact absurd rfl hc
  have hitems : ∀ (k : Keyword) (kind : ItemKind) (g : List Item → Contents) (part : Contents → List Item),
      (∀ s : Section, s.keyword = k → s.contents = (s.items kind).map g) → (∀ xs, part (g xs) = xs) →
      (∀ c : Contents, c.keyword ≠ k → part c = []) → cs.flatMap part = cs'.flatMap part :=
    fun k kind g part hc hg hother ↦ h.part_eq_of_mapM hcs hcs'
      (fun s hk ↦ by rw [hc s hk, Section.items, hk]) hg hother
  -- Each list has its own contents and nothing of any other.
  simp only [gather, hreadmes, Document.mk.injEq, true_and]
  refine ⟨?_, congrArg (fun xs : List Setting ↦ Table.ofList (xs.map fun s ↦ (s.key, s.value))) hsettings,
    ?_, ?_, ?_, ?_, ?_, ?_, ?_, ?_⟩
  · refine h.part_eq_of_map hcs hcs' (k := .includes) (g := .includes)
      (fun s hk ↦ by rw [Section.contents, hk, Section.values]) (fun _ ↦ rfl) fun c hc ↦ ?_
    cases c <;> first | rfl | exact absurd rfl hc
  · refine hitems .packages .package .packages _ (fun s hk ↦ by rw [Section.contents, hk]) (fun _ ↦ rfl)
      fun c hc ↦ ?_
    cases c <;> first | rfl | exact absurd rfl hc
  · refine hitems .files .file .files _ (fun s hk ↦ by rw [Section.contents, hk]) (fun _ ↦ rfl) fun c hc ↦ ?_
    cases c <;> first | rfl | exact absurd rfl hc
  · refine hitems .directories .directory .directories _ (fun s hk ↦ by rw [Section.contents, hk]) (fun _ ↦ rfl)
      fun c hc ↦ ?_
    cases c <;> first | rfl | exact absurd rfl hc
  · refine hitems .services .service .services _ (fun s hk ↦ by rw [Section.contents, hk]) (fun _ ↦ rfl)
      fun c hc ↦ ?_
    cases c <;> first | rfl | exact absurd rfl hc
  · refine h.part_eq_of_mapM hcs hcs' (k := .symlinks) (g := .symlinks)
      (fun s hk ↦ by rw [Section.contents, hk, Section.symlinks]) (fun _ ↦ rfl) fun c hc ↦ ?_
    cases c <;> first | rfl | exact absurd rfl hc
  · refine h.part_eq_of_map hcs hcs' (k := .commands) (g := .commands)
      (fun s hk ↦ by rw [Section.contents, hk, Section.executables]) (fun _ ↦ rfl) fun c hc ↦ ?_
    cases c <;> first | rfl | exact absurd rfl hc
  · refine h.part_eq_of_map hcs hcs' (k := .scripts) (g := .scripts)
      (fun s hk ↦ by rw [Section.contents, hk, Section.executables]) (fun _ ↦ rfl) fun c hc ↦ ?_
    cases c <;> first | rfl | exact absurd rfl hc
  · refine h.part_eq_of_mapM hcs hcs' (k := .cronjobs) (g := .cronjobs)
      (fun s hk ↦ by rw [Section.contents, hk, Section.cronjobs]) (fun _ ↦ rfl) fun c hc ↦ ?_
    cases c <;> first | rfl | exact absurd rfl hc

/-- The one identity section declares the kind and the name. -/
theorem DeclareAlike.identity_eq (hd : Describes ss) {kind kind' : DocumentKind} {name name' : Text}
    (hid : identity? cs = some (kind, name)) (hid' : identity? cs' = some (kind', name')) :
    kind = kind' ∧ name = name' := by
  obtain ⟨s, hs, hc⟩ := exists_of_mem_mapM (mapM_eq_ok_iff.mpr hcs) (exists_identity_of_identity? hid)
  obtain ⟨s', hs', hc'⟩ := exists_of_mem_mapM (mapM_eq_ok_iff.mpr hcs') (exists_identity_of_identity? hid')
  have hk := isIdentity_of_contents hc
  have hk' := isIdentity_of_contents hc'
  obtain ⟨r, hr⟩ := hd.identity
  have hone : ∀ u ∈ ss, u.keyword.isIdentity = true → u = r := fun u hu huk ↦
    List.mem_singleton.mp (hr ▸ List.mem_filter.mpr ⟨hu, huk⟩)
  have hsame : s = s' := (hone s hs hk).trans (hone s' (h.symm.mem_of_isIdentity hs' hk') hk').symm
  rw [hsame, hc', Except.ok.injEq, Contents.identity.injEq] at hc
  exact ⟨hc.1.symm, hc.2.symm⟩

end Alike

/-- Sections that declare the same describe the same document, or none. -/
theorem DeclareAlike.ofSections_iff (h : DeclareAlike ss ss') (d : Document) :
    ofSections ss = .ok d ↔ ofSections ss' = .ok d := by
  have hforth : ∀ {ss ss' : List Section}, DeclareAlike ss ss' →
      ofSections ss = .ok d → ofSections ss' = .ok d := by
    intro ss ss' h hd
    have hdescribes := exists_ofSections_iff.mp ⟨d, hd⟩
    obtain ⟨d', hd'⟩ := exists_ofSections_iff.mpr (h.describes hdescribes)
    obtain ⟨cs, hread, kind, name, hid, -, rfl⟩ := ofSections_eq_ok_iff.mp hd
    obtain ⟨cs', hread', kind', name', hid', -, rfl⟩ := ofSections_eq_ok_iff.mp hd'
    have hcs := mapM_eq_ok_iff.mp (readSections_eq_ok_iff.mp hread).2
    have hcs' := mapM_eq_ok_iff.mp (readSections_eq_ok_iff.mp hread').2
    obtain ⟨rfl, rfl⟩ := h.identity_eq hcs hcs' hdescribes hid hid'
    have hprose : prose cs = prose cs' := by rw [prose_eq hcs, prose_eq hcs', h.entries]
    rw [hd', hprose, h.gather_eq hcs hcs']
  exact ⟨hforth h, hforth h.symm⟩

/-! ## Reordering and joining sections -/

theorem DeclareAlike.of_filter_eq (h : ∀ k, ss.filter (·.keyword = k) = ss'.filter (·.keyword = k)) :
    DeclareAlike ss ss' where
  whole := fun k _ ↦ h k
  entries := fun k ↦ by rw [entriesOf, h k, ← entriesOf]

end Document

/-- A section with the lines of another behind its own. -/
def Section.followedBy (s r : Section) : Section := { s with lines := s.lines ++ r.lines }

@[simp] theorem Section.keyword_followedBy (s r : Section) : (s.followedBy r).keyword = s.keyword := rfl

theorem Section.entries_followedBy (s r : Section) : (s.followedBy r).entries = s.entries ++ r.entries :=
  List.filter_append _ _

namespace Document

variable {before between after : List Section} {s r : Section}

theorem DeclareAlike.of_followedBy (hr : r.keyword = s.keyword) (hid : s.keyword.isIdentity = false)
    (hreadme : s.keyword ≠ .readme) (hbetween : ∀ u ∈ between, u.keyword ≠ s.keyword) :
    DeclareAlike (before ++ s :: (between ++ r :: after)) (before ++ s.followedBy r :: (between ++ after)) where
  whole := by
    intro k hk
    have hs : s.keyword ≠ k := by
      rintro rfl
      rcases hk with hk | hk
      · exact Bool.false_ne_true (hid.symm.trans hk)
      · exact hreadme hk
    have hr' : r.keyword ≠ k := hr ▸ hs
    simp [List.filter_append, hs, hr']
  entries := by
    intro k
    rw [Brinefile.entriesOf_append, Brinefile.entriesOf_append, entriesOf_cons, entriesOf_cons,
      Brinefile.entriesOf_append, Brinefile.entriesOf_append, entriesOf_cons, Section.keyword_followedBy, hr]
    by_cases hk : s.keyword = k
    · have hnone : entriesOf k between = [] := Brinefile.entriesOf_eq_nil (hk ▸ hbetween)
      rw [if_pos hk, if_pos hk, if_pos hk, hnone, Section.entries_followedBy]
      simp
    · rw [if_neg hk, if_neg hk, if_neg hk, List.nil_append, List.nil_append, List.nil_append]

/-- What sections describe depends on those of each keyword in their order. Except for an identity and
a readme, it makes no difference if two neighbours among them are one section. -/
theorem ofSections_byKeyword :
    (∀ ss ss' : List Section, (∀ k, ss.filter (·.keyword = k) = ss'.filter (·.keyword = k)) →
      ∀ d, ofSections ss = .ok d ↔ ofSections ss' = .ok d) ∧
    ∀ (before between after : List Section) (s r : Section), r.keyword = s.keyword →
      s.keyword ≠ .rolename → s.keyword ≠ .elementname → s.keyword ≠ .readme →
      (∀ u ∈ between, u.keyword ≠ s.keyword) →
      ∀ d, ofSections (before ++ s :: (between ++ r :: after)) = .ok d ↔
        ofSections (before ++ s.followedBy r :: (between ++ after)) = .ok d := by
  refine ⟨fun ss ss' h ↦ (DeclareAlike.of_filter_eq h).ofSections_iff, ?_⟩
  intro before between after s r hr hrole helement hreadme hbetween
  have hid : s.keyword.isIdentity = false := by simp [Keyword.isIdentity, hrole, helement]
  exact (DeclareAlike.of_followedBy hr hid hreadme hbetween).ofSections_iff

/-- Two package sections around a setting, before and behind the role's name. -/
theorem ofSections_byKeyword_packages :
    let role : Section := ⟨.rolename, 1, [⟨1, "r".toList⟩]⟩
    let prose : Section := ⟨.description, 3, [⟨3, "d".toList⟩, ⟨4, []⟩]⟩
    let first : Section := ⟨.packages, 6, [⟨6, " b".toList⟩, ⟨7, "#".toList⟩]⟩
    let setting : Section := ⟨.sysctl, 9, [⟨9, "k=1".toList⟩]⟩
    let second : Section := ⟨.packages, 11, [⟨11, "- a".toList⟩]⟩
    ∃ d, ofSections [role, prose, first, setting, second] = .ok d ∧ d.packages.map Item.line = [7, 12] ∧
      ofSections [first, setting, role, second, prose] = .ok d ∧
      ofSections [role, prose, first.followedBy second, setting] = .ok d := by
  intro role prose first setting second
  have hreordered : ∀ k, [role, prose, first, setting, second].filter (·.keyword = k) =
      [first, setting, role, second, prose].filter (·.keyword = k) := by
    intro k
    cases k <;> rfl
  have hbetween : ∀ u ∈ [setting], u.keyword ≠ first.keyword := by
    intro u hu
    rw [List.mem_singleton.mp hu]
    nofun
  refine ⟨_, rfl, rfl, (ofSections_byKeyword.1 _ _ hreordered _).mp rfl, ?_⟩
  exact (ofSections_byKeyword.2 [role, prose] [setting] [] first second rfl nofun nofun nofun hbetween _).mp rfl

end Document

end Saltern
