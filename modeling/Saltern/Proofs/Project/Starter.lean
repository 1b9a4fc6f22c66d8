import Saltern.Project.Starter
import Saltern.Proofs.Brinefile.Canonical
import Saltern.Proofs.Brinefile.Grammar
import Saltern.Proofs.Document.Meaning
import Saltern.Proofs.Document.Silent
import Saltern.Proofs.Project.Pinning

/-!
# The starter Brinefile

A starter is in canonical layout and describes a document of its kind and name that lists nothing, whatever dotted
name it is given. The samples in it are comments, so that no item, symlink or cron job is read of them.
-/

namespace Saltern

open Text

namespace Starter

variable {kind : DocumentKind} {name t : Text}

/-! ## Layout -/

/-- The section that declares a document of a kind. -/
def keyword (kind : DocumentKind) : Keyword := if kind = .role then .rolename else .elementname

def heading (name : Text) : Text := "# Brinefile for " ++ name

def hint : Text := "# Run \"brine\" in this directory to regenerate the Salt state."

def description (kind : DocumentKind) : Text := "Describe what this " ++ kind.word ++ " sets up."

/-- The sections behind the description, with what they show as comments. -/
def samples : List (Keyword × List Text) :=
  [(.packages,
      ["# nginx",
        "# nginx=1.24.0   pin a version (per-environment pins: \"overrides\" in maps/versions.json)",
        "# -telnet        remove a package"]),
    (.files, ["# /etc/motd      template in files/etc/motd.jinja", "# /etc/app.conf=0600"]),
    (.directories, []),
    (.symlinks, ["# /usr/local/bin/app->/opt/app/bin/app"]),
    (.services, []),
    (.commands, []),
    (.scripts, []),
    (.cronjobs, ["# */5 * * * * /usr/local/bin/cleanup"])]

def layout (kind : DocumentKind) (name : Text) : Layout where
  lead := [heading name, hint]
  bodies := (keyword kind, [name]) :: (.description, [description kind]) :: samples

theorem name_keyword (kind : DocumentKind) : (keyword kind).name = kind.sectionName := by
  unfold keyword DocumentKind.sectionName
  split <;> rfl

set_option maxRecDepth 4000 in
/-- The sections that are the same in every starter, with the empty line before the first. -/
theorem sections_eq : '\n' :: sections = samples.flatMap Layout.sectionText := by
  have hliteral : sections = _ := String.toList_ofList
  refine (congrArg ('\n' :: ·) hliteral).trans ?_
  decide +kernel

/-- A starter is written line by line. -/
theorem text_eq (kind : DocumentKind) (name : Text) : text kind name = (layout kind name).text := by
  have hhint : "\n# Run \"brine\" in this directory to regenerate the Salt state.\n\n%".toList =
      '\n' :: (hint ++ ['\n', '\n', '%']) := by decide +kernel
  have hdescription : "\n\n%description\nDescribe what this ".toList =
      '\n' :: '\n' :: '%' :: (Keyword.description.name ++ '\n' :: "Describe what this ".toList) := by decide +kernel
  have hend : " sets up.\n\n".toList = " sets up.".toList ++ ['\n', '\n'] := by decide +kernel
  calc text kind name
    _ = (heading name ++ '\n' :: (hint ++ ['\n'])) ++
          (Layout.sectionText (keyword kind, [name]) ++
            (Layout.sectionText (.description, [description kind]) ++ '\n' :: sections)) := by
        unfold text heading description
        rw [hhint, hdescription, hend]
        simp [-String.reduceToList, Layout.sectionText, name_keyword]
    _ = (layout kind name).text := by
        rw [Layout.text_eq, sections_eq, layout]
        simp

/-- The samples stand in sections that list things, and are comments. -/
theorem comment_of_mem_samples :
    ∀ o ∈ samples, o.1.IsList ∧ ∀ t ∈ o.2, trim t = t ∧ t.head? = some '#' ∧ '\n' ∉ t := by decide +kernel

/-! ## What the name and the kind say -/

theorem isTidyLine_of_isDotted (h : IsDotted t) : IsTidyLine t where
  ne_nil := h.spec.1
  trimmed := by
    have hblank : ∀ c ∈ t, isBlank c = false :=
      fun c hc ↦ Bool.eq_false_iff.mpr fun hb ↦ h.not_mem (.inl hb) hc
    exact ⟨fun c hc ↦ hblank c (List.mem_of_mem_head? hc), fun c hc ↦ hblank c (List.mem_of_mem_getLast? hc)⟩
  percent := fun hp ↦ h.not_mem (.inr (.inl rfl)) (List.mem_of_mem_head? hp)
  newline := h.not_mem (.inl (by decide))

theorem isTidyLine_heading (h : IsDotted name) : IsTidyLine (heading name) := by
  have hname := isTidyLine_of_isDotted h
  obtain ⟨intro, hintro, hnewline⟩ : ∃ intro : Text, "# Brinefile for ".toList = '#' :: intro ∧ '\n' ∉ intro :=
    ⟨" Brinefile for ", by decide, by decide⟩
  unfold heading
  rw [hintro]
  refine ⟨List.cons_ne_nil _ _, ⟨fun c hc ↦ ?_, fun c hc ↦ ?_⟩, fun hp ↦ ?_, ?_⟩
  · obtain rfl : '#' = c := Option.some.inj hc
    decide
  · rw [List.getLast?_append_of_ne_nil _ hname.ne_nil] at hc
    exact hname.trimmed.2 c hc
  · exact absurd (Option.some.inj hp) (by decide)
  · rw [List.mem_append, List.mem_cons, not_or, not_or]
    exact ⟨⟨by decide, hnewline⟩, hname.newline⟩

theorem isTidyLine_hint : IsTidyLine hint :=
  ⟨by decide, trim_eq_self_iff.mp (by decide), by decide, by decide⟩

theorem isTidyLine_description (h : kind = .role ∨ kind = .element) :
    IsTidyLine (description kind) ∧ (description kind).head? ≠ some '#' := by
  rcases h with rfl | rfl
  · exact ⟨⟨by decide, trim_eq_self_iff.mp (by decide), by decide, by decide⟩, by decide⟩
  · exact ⟨⟨by decide, trim_eq_self_iff.mp (by decide), by decide, by decide⟩, by decide⟩

theorem isCanonical_layout (hk : kind = .role ∨ kind = .element) (hname : IsDotted name) :
    (layout kind name).IsCanonical := by
  have hlead : ∀ t ∈ (layout kind name).lead, IsTidyLine t :=
    List.forall_mem_cons.mpr ⟨isTidyLine_heading hname, List.forall_mem_singleton.mpr isTidyLine_hint⟩
  have hidentity : IsCanonicalBody (keyword kind) [name] := by
    refine .of_lines ?_ (List.forall_mem_singleton.mpr ⟨isTidyLine_of_isDotted hname, .inr ?_⟩)
    · rcases hk with rfl | rfl <;> decide
    · rcases hk with rfl | rfl <;> rfl
  have hdescription : IsCanonicalBody .description [description kind] :=
    .of_lines (by decide) (List.forall_mem_singleton.mpr ⟨(isTidyLine_description hk).1, .inr rfl⟩)
  refine ⟨List.cons_ne_nil _ _, bareEdges_of_ne_nil fun t ht ↦ (hlead t ht).ne_nil, fun t ht _ ↦ hlead t ht,
    List.forall_mem_cons.mpr ⟨hidentity, List.forall_mem_cons.mpr ⟨hdescription, fun o ho ↦ ?_⟩⟩⟩
  obtain ⟨hlist, hcomment⟩ := comment_of_mem_samples o ho
  refine .of_lines (fun hreadme ↦ ?_) fun t ht ↦ ?_
  · rw [hreadme] at hlist
    exact absurd hlist (by decide)
  · obtain ⟨htrim, hhash, hnewline⟩ := hcomment t ht
    exact isCanonicalLine_of_comment htrim hhash hnewline

/-! ## The document -/

/-- What a starter describes: a document that lists nothing. -/
def document (kind : DocumentKind) (name : Text) : Document :=
  ⟨kind, name, description kind, none, [], .empty, [], [], [], [], [], [], [], []⟩

theorem values_of_tidy {s : Section} (h : IsTidyLine t) (hhash : t.head? ≠ some '#') (hs : s.raws = [t] ++ [[]]) :
    s.values = [t] := by
  have hentry : LineKind.ofRaw t = .entry := by rw [h.ofRaw, if_neg hhash]
  rw [Section.values_eq, hs, LineKind.contents_append, LineKind.contents_cons_of_eq hentry,
    LineKind.contents_singleton_nil (by decide), trim_eq_self_iff.mpr h.trimmed]
  rfl

/-- Sections that hold samples hold no entry. -/
theorem isSilent_of_samples {s : Section} (h : s.outline ∈ samples.map fun o ↦ (o.1, o.2 ++ [[]])) :
    s.IsSilent := by
  obtain ⟨o, ho, hs⟩ := List.mem_map.mp h
  obtain ⟨hkey, hraws⟩ := Prod.mk.inj hs
  obtain ⟨hlist, hcomment⟩ := comment_of_mem_samples o ho
  have hvalues : s.values = [] := by
    rw [Section.values_eq, ← hraws, LineKind.contents, List.map_eq_nil_iff, List.filter_eq_nil_iff]
    intro t ht
    rcases List.mem_append.mp ht with ht | ht
    · obtain ⟨htrim, hhash, hnewline⟩ := hcomment t ht
      have htidy := (isCanonicalLine_of_comment (k := o.1) htrim hhash hnewline).toIsTidyLine
      rw [htidy.ofRaw, if_pos hhash]
      decide
    · rw [List.mem_singleton.mp ht]
      decide
  exact ⟨hkey ▸ hlist, List.map_eq_nil_iff.mp hvalues⟩

/-- A starter describes a document of its kind and name that lists nothing. -/
theorem ofText_text (hk : kind = .role ∨ kind = .element) (hname : isDottedName name = true) :
    Document.ofText (text kind name) = .ok (document kind name) := by
  have hdotted := isDottedName_iff.mp hname
  obtain ⟨htidy, hhash⟩ := isTidyLine_description hk
  obtain ⟨b, hb, hout, -⟩ := (isCanonical_layout hk hdotted).ofText_text
  obtain ⟨s, ss, hss, hs, hrest⟩ := List.map_eq_cons_iff.mp hout
  obtain ⟨s', qs, rfl, hs', hqs⟩ := List.map_eq_cons_iff.mp hrest
  obtain ⟨hkey, hraws⟩ := Prod.mk.inj hs
  obtain ⟨hkey', hraws'⟩ := Prod.mk.inj hs'
  have hidentity : s.contents = .ok (.identity kind name) := by
    have hvalues := values_of_tidy (isTidyLine_of_isDotted hdotted)
      (fun hh ↦ hdotted.not_mem (.inr (.inr rfl)) (List.mem_of_mem_head? hh)) hraws
    have hread : s.name = .ok name := Section.name_eq_ok_iff.mpr ⟨hvalues, hname⟩
    unfold Section.contents
    rw [hkey, hread]
    rcases hk with rfl | rfl <;> rfl
  have hdescription : s'.contents = .ok (.description (description kind)) := by
    unfold Section.contents
    rw [hkey']
    change Except.ok (Contents.description (joinWith ['\n'] s'.values)) = _
    rw [values_of_tidy htidy hhash hraws', joinWith_singleton]
  have hsilent : ∀ q ∈ qs, q.IsSilent := fun q hq ↦ isSilent_of_samples (hqs ▸ List.mem_map_of_mem hq)
  have hprose : Document.descriptions [.identity kind name, .description (description kind)] = [description kind] := by
    simp [Document.descriptions, htidy.ne_nil]
  rw [text_eq, Document.ofText, hb]
  change Document.ofSections b.sections = _
  rw [hss, show s :: s' :: qs = [s, s'] ++ qs from rfl, Document.ofSections_append_silent hsilent,
    Document.ofSections_eq_ok_iff]
  refine ⟨_, Document.readSections_eq_ok_iff.mpr ⟨?_, mapM_eq_ok_iff.mpr (.cons hidentity (.cons hdescription .nil))⟩,
    kind, name, rfl, ?_, ?_⟩
  · rw [List.map_cons, List.map_cons, hkey, hkey']
    rcases hk with rfl | rfl <;> exact ⟨rfl, rfl, trivial⟩
  · rw [Document.prose, hprose, joinWith_singleton, trim_eq_self_iff.mpr htidy.trimmed]
    exact htidy.ne_nil
  · rw [Document.prose, hprose, joinWith_singleton]
    rfl

/-! ## What is made of it -/

/-- Where the defaults hold a document that lists no package is planned whatever is there already: its manifest, its
README and its directory for files. -/
theorem exists_plan_of_packages_nil {d : Document} {u : Text} (hd : Document.ofText u = .ok d)
    (hnone : d.packages = []) (root : Path) (t : FileTree) :
    ∃ p, (d.plan root .default t).result = .ok p ∧ p.root = root ∧ p.directories = [root.resolve "files"] ∧
      p.files.map (fun a ↦ (a.kind, a.path)) =
        [(.manifest, root.resolve "init.sls"), (.readme, root.resolve "README.md")] := by
  have hpins : d.pins.isEmpty = true := by
    rw [Document.pins, hnone]
    rfl
  have hfiled := Document.filed_of_ofText hd
  obtain ⟨blocks, -, hblocks, -⟩ :=
    Document.blocks_of_filed (Document.oneLine_setup Project.oneLine_default hfiled) hfiled
  have hplan : (d.plan root .default t).result = .ok (Project.planOf root d .empty blocks) :=
    Project.plan_default_eq_ok_iff.mpr ⟨blocks, hblocks, by rw [if_pos hpins]⟩
  refine ⟨_, hplan, ?_⟩
  rw [Project.planOf, if_pos hpins]
  exact ⟨rfl, rfl, rfl⟩

/-- For every dotted name a starter is accepted as a document of its kind and name that lists nothing, is laid out as
formatting would have it, and leads to a manifest, a README and a directory for files, and to nothing else. -/
theorem text_accepted (hk : kind = .role ∨ kind = .element) (hname : isDottedName name = true) :
    Document.ofText (text kind name) = .ok (document kind name) ∧
      (∀ preserveNewlines, Brinefile.format preserveNewlines (text kind name) = .ok ⟨text kind name, false⟩) ∧
      ∀ root t, ∃ p, ((document kind name).plan root .default t).result = .ok p ∧ p.root = root ∧
        p.directories = [root.resolve "files"] ∧
        p.files.map (fun a ↦ (a.kind, a.path)) =
          [(.manifest, root.resolve "init.sls"), (.readme, root.resolve "README.md")] := by
  have hd := ofText_text hk hname
  refine ⟨hd, fun preserveNewlines ↦ ?_, exists_plan_of_packages_nil hd rfl⟩
  rw [text_eq]
  exact (isCanonical_layout hk (isDottedName_iff.mp hname)).format_text preserveNewlines

theorem text_accepted_base_ntp :
    Document.ofText (text .role "base.ntp") = .ok
        ⟨.role, "base.ntp", "Describe what this role sets up.", none, [], .empty, [], [], [], [], [], [], [], []⟩ ∧
      Brinefile.format true (text .role "base.ntp") = .ok ⟨text .role "base.ntp", false⟩ := by
  have hname : isDottedName "base.ntp" = true := by decide
  have hdescription : description .role = "Describe what this role sets up." := by decide
  obtain ⟨hd, hformat, -⟩ := text_accepted (.inl rfl) hname
  rw [document, hdescription] at hd
  exact ⟨hd, hformat true⟩

end Starter

end Saltern
