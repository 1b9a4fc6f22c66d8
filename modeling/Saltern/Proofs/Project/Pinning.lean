import Saltern.Proofs.Files.Within
import Saltern.Proofs.Project.Places
import Saltern.Proofs.Project.Planning
import Saltern.Proofs.Project.Writing

/-!
# Pins over many runs

The Brinefile of a project is written again and again, and the project is run each time. The store
keeps every pin that was ever in it, each with the version declared last, and the lookup stays in
step with the store.
-/

namespace Saltern

namespace Project

variable {root : Path} {speaker : Speaker} {w : Workspace} {t : FileTree} {text : Text} {d : Document}
  {s : PinStore}

/-! ## One run -/

/-- In a project without a configuration the defaults hold. -/
theorem result_planned (h : w.tree.configFile? root = none) :
    ((planned root .plain speaker).run w).report.result =
      (prepare root .plain speaker .default w.tree).result := by
  have hfound : configFile root .plain w.tree = .ok none := congrArg Except.ok h
  have hsearch : ((Action.look (search root .plain)).run w).report.result = .ok none := by
    rw [Action.run_look, search, hfound]
    rfl
  rw [planned, (Action.run_bind_of_ok hsearch).2]
  rfl

/-- The source of such a project is its Brinefile. -/
theorem result_source (h : t.node? (brinefile root) = some (.file text)) :
    (source root .plain .default t).result = .ok ⟨.default, brinefile root, text⟩ := by
  have hread : readSource (brinefile root) t = .ok text := by
    rw [readSource, FileTree.read, h]
  change ((Report.ofExcept id (readSource (brinefile root) t)) >>= _).result = _
  rw [hread]
  rfl

theorem result_prepare_of_error {e : Fault} (h : t.node? (brinefile root) = some (.file text))
    (hd : Document.ofText text = .error e) :
    (prepare root .plain speaker .default t).result = .error (.fault e) := by
  rw [prepare, Report.result_bind_of_ok (result_source h), document, hd]
  rfl

theorem result_prepare_of_ok (h : t.node? (brinefile root) = some (.file text))
    (hd : Document.ofText text = .ok d) {p : Plan} (hp : (d.plan root .default t).result = .ok p) :
    (prepare root .plain speaker .default t).result = .ok ⟨d, p⟩ := by
  have hdocument : (document ⟨.default, brinefile root, text⟩).result = .ok d :=
    Report.result_ofExcept_eq_ok.mpr hd
  have htold : (Report.tell speaker .debug d.summary : Report Failure Unit).result = .ok () := rfl
  rw [prepare, Report.result_bind_of_ok (result_source h), Report.result_bind_of_ok hdocument,
    Report.result_bind_of_ok htold, Report.result_bind_of_ok hp]
  change Except.ok (Compiled.mk d { p with files := p.files ++ [] }) = _
  rw [List.append_nil]

/-! ## The plan of an accepted text -/

theorem result_within {a : Text} (ha : IsPart a) :
    (root.within a).result = .ok (root.resolve a) := by
  rw [Path.within, Path.resolveWithin, Path.resolve_eq_child root ha, Path.contains_child]
  rfl

theorem oneLine_default : ManifestOptions.OneLine Config.default.manifestOptions :=
  ⟨by decide, by decide, by decide, by decide, by decide⟩

/-- The plan of a document where the defaults hold: its manifest and its README, and, if it declares
pins, the store with them and the lookup. -/
def planOf (root : Path) (d : Document) (s : PinStore) (blocks : List Block) : Plan :=
  let base := d.baseFiles blocks (root.resolve Config.default.manifestFile)
    (root.resolve Config.default.readmeFile)
  let files := root.resolve Config.default.filesDir
  let maps := root.resolve Config.default.mapsDir
  if d.pins.isEmpty then ⟨root, [files], base, blocks, d.pins⟩
  else
    ⟨root, [files, maps],
      base ++ Document.pinFiles (s.merge d.pins.entries) Config.default.environments maps, blocks, d.pins⟩

/-- Planning where the defaults hold: the blocks of the manifest are made, and the store is loaded if there
are pins to declare. -/
theorem plan_default_eq_ok_iff {p : Plan} :
    (d.plan root .default t).result = .ok p ↔
      ∃ blocks, d.blocks Config.default.manifestOptions = .ok blocks ∧
        if d.pins.isEmpty then p = planOf root d .empty blocks
        else ∃ s, (PinStore.load (storePath root) t).result = .ok s ∧ p = planOf root d s blocks := by
  have hmanifest : (root.within Config.default.manifestFile).result = _ := result_within (by decide)
  have hreadme : (root.within Config.default.readmeFile).result = _ := result_within (by decide)
  have hfiles : (root.within Config.default.filesDir).result = _ := result_within (by decide)
  have hmaps : (root.within Config.default.mapsDir).result = _ := result_within (by decide)
  rw [Document.plan, Report.bind_eq_ok_iff]
  refine exists_congr fun blocks ↦ and_congr Report.result_ofExcept_eq_ok ?_
  rw [Report.result_bind_of_ok hmanifest, Report.result_bind_of_ok hreadme,
    Report.result_bind_of_ok hfiles]
  split
  · next hempty =>
    rw [planOf, if_pos hempty]
    exact ⟨fun h ↦ (Except.ok.inj h).symm, fun h ↦ congrArg Except.ok h.symm⟩
  · next hempty =>
    rw [Report.result_bind_of_ok hmaps, Report.bind_eq_ok_iff]
    refine exists_congr fun s ↦ and_congr Iff.rfl ?_
    rw [planOf, if_neg hempty]
    exact ⟨fun h ↦ (Except.ok.inj h).symm, fun h ↦ congrArg Except.ok h.symm⟩

theorem exists_plan (hd : Document.ofText text = .ok d)
    (hs : (PinStore.load (storePath root) t).result = .ok s) :
    ∃ blocks, (d.plan root .default t).result = .ok (planOf root d s blocks) := by
  have hfiled := Document.filed_of_ofText hd
  obtain ⟨blocks, -, hblocks, -⟩ :=
    Document.blocks_of_filed (Document.oneLine_setup oneLine_default hfiled) hfiled
  refine ⟨blocks, plan_default_eq_ok_iff.mpr ⟨blocks, hblocks, ?_⟩⟩
  split
  · next hempty => rw [planOf, planOf, if_pos hempty, if_pos hempty]
  · exact ⟨s, hs, rfl⟩

variable {blocks : List Block}

/-- The changes of such a plan, in order. -/
theorem changes_planOf (root : Path) (d : Document) (s : PinStore) (blocks : List Block) :
    (planOf root d s blocks).changes =
      if d.pins.isEmpty then
        [.directory (root.resolve Config.default.filesDir),
          .file (root.resolve Config.default.manifestFile) (manifestText (blocks.map (·.text))),
          .file (root.resolve Config.default.readmeFile) d.readmeText]
      else
        [.directory (root.resolve Config.default.filesDir), .directory (root.resolve Config.default.mapsDir),
          .file (root.resolve Config.default.manifestFile) (manifestText (blocks.map (·.text))),
          .file (root.resolve Config.default.readmeFile) d.readmeText,
          .file (storePath root) (s.merge d.pins.entries).text,
          .file (lookupPath root)
            (Lookup.text (s.merge d.pins.entries).pins.sorted Config.default.environments s.overrides)] := by
  rw [planOf]
  split <;> rfl

theorem within_planOf (root : Path) (d : Document) (s : PinStore) (blocks : List Block) :
    ∀ c ∈ (planOf root d s blocks).changes, Within root c := by
  have hmanifest : root.resolve Config.default.manifestFile ∈ written root :=
    List.mem_cons_of_mem _ List.mem_cons_self
  have hreadme : root.resolve Config.default.readmeFile ∈ written root :=
    List.mem_cons_of_mem _ (List.mem_cons_of_mem _ List.mem_cons_self)
  rw [changes_planOf]
  split
  · simpa [Within] using ⟨hmanifest, hreadme⟩
  · simpa [Within] using ⟨hmanifest, hreadme, storePath_mem_written, lookupPath_mem_written⟩

theorem textAt_storePath (root : Path) (d : Document) (s : PinStore) (blocks : List Block) :
    Change.textAt (storePath root) (planOf root d s blocks).changes =
      if d.pins.isEmpty then none else some (s.merge d.pins.entries).text := by
  have hmanifest : root.resolve Config.default.manifestFile ≠ storePath root := by
    rw [resolve_manifestFile, storePath_eq]
    exact Path.child_ne (by decide)
  have hreadme : root.resolve Config.default.readmeFile ≠ storePath root := by
    rw [resolve_readmeFile, storePath_eq]
    exact Path.child_ne (by decide)
  have hlookup : lookupPath root ≠ storePath root := by
    rw [lookupPath_eq, storePath_eq]
    exact Path.child_ne (by decide)
  rw [changes_planOf]
  split
  · simp only [Change.textAt, if_neg hmanifest, if_neg hreadme, Option.or_none]
  · simp only [Change.textAt, if_neg hmanifest, if_neg hreadme, if_neg hlookup, if_pos, Option.or_none,
      Option.none_or]

theorem textAt_lookupPath (h : d.pins.isEmpty = false) :
    Change.textAt (lookupPath root) (planOf root d s blocks).changes =
      some (Lookup.text (s.merge d.pins.entries).pins.sorted Config.default.environments s.overrides) := by
  rw [changes_planOf, h, if_neg Bool.false_ne_true]
  simp only [Change.textAt, if_pos, Option.none_or, Option.some_or]

/-! ## One run -/

/-- A run of a rejected text fails, and leaves everything as it is. -/
theorem run_of_error {e : Fault} (speaker : Speaker) (hconfig : w.tree.configFile? root = none)
    (hsource : w.tree.node? (brinefile root) = some (.file text)) (hd : Document.ofText text = .error e) :
    ((run root .plain speaker).run w).report.result = .error (.fault e) ∧
      ((run root .plain speaker).run w).tree = w.tree := by
  apply run_of_planned_error
  rw [result_planned hconfig]
  exact result_prepare_of_error hsource hd

theorem result_carryOut {r : Compiled} (h : Change.refusal? w.tree r.plan.changes = none) :
    ((carryOut speaker r).run w).report.result = .ok r := by
  obtain ⟨-, hresult⟩ := r.plan.performs_write speaker w
  rw [h] at hresult
  rw [carryOut, (Action.run_bind_of_ok hresult).2]
  split <;> rfl

/-- A run of an accepted text makes the changes of its plan. -/
theorem run_of_ok (speaker : Speaker) (hclear : Clear root w.tree)
    (hsource : w.tree.node? (brinefile root) = some (.file text))
    (hs : (PinStore.load (storePath root) w.tree).result = .ok s) (hd : Document.ofText text = .ok d) :
    ∃ blocks, ((run root .plain speaker).run w).report.result = .ok ⟨d, planOf root d s blocks⟩ ∧
      ((run root .plain speaker).run w).tree = Change.after w.tree (planOf root d s blocks).changes := by
  obtain ⟨blocks, hplan⟩ := exists_plan hd hs
  have hplanned : ((planned root .plain speaker).run w).report.result = .ok ⟨d, planOf root d s blocks⟩ :=
    (result_planned hclear.unconfigured).trans (result_prepare_of_ok hsource hd hplan)
  obtain ⟨hworkspace, hresult⟩ := Action.run_bind_of_ok (f := carryOut speaker) hplanned
  have htree : ((planned root .plain speaker).run w).workspace.tree = w.tree :=
    looksOnly_planned root .plain speaker w
  obtain ⟨hrefusal, -⟩ := hclear.after (within_planOf root d s blocks)
  refine ⟨blocks, ?_, ?_⟩
  · rw [run_eq, hresult, result_carryOut (by rw [htree]; exact hrefusal)]
  · rw [run_eq, ← htree]
    exact (congrArg Workspace.tree hworkspace).trans (tree_carryOut speaker _ _)

/-! ## Many runs -/

/-- Writes the Brinefile anew and runs the project. -/
def rewrite (root : Path) (speaker : Speaker) (text : Text) : Action Failure Compiled := do
  .change .disk (·.write (brinefile root) text)
  run root .plain speaker

/-- The workspace after the Brinefile was each of some texts in turn, with a run for each. -/
def afterRuns (root : Path) (speaker : Speaker) (w : Workspace) (texts : List Text) : Workspace :=
  texts.foldl (fun w text ↦ ((rewrite root speaker text).run w).workspace) w

/-- The pins that a text declares, if it is accepted. -/
def declared (text : Text) : List (Units × Units) :=
  match Document.ofText text with
  | .ok d => d.pins.entries
  | .error _ => []

/-- What a run makes of a text: one that is rejected changes nothing, one that is accepted is the
document of the run, and where it declares a version the lookup is in step with the store. -/
structure Heeds (root : Path) (text : Text) (before : FileTree) (o : Outcome Failure Compiled) : Prop where
  rejected : ∀ e, Document.ofText text = .error e →
    o.report.result = .error (.fault e) ∧ before.write (brinefile root) text = .ok o.tree
  accepted : ∀ d, Document.ofText text = .ok d → ∃ r, o.report.result = .ok r ∧ r.document = d
  inStep : ∀ d, Document.ofText text = .ok d → d.isPinned = true →
    ∃ s, (PinStore.load (storePath root) o.tree).result = .ok s ∧
      o.tree.read (lookupPath root) =
        .ok (Lookup.text s.pins.sorted Config.default.environments s.overrides)

/-- Writing the Brinefile leaves the store alone. -/
theorem exists_write_brinefile (hclear : Clear root t) (text : Text) :
    ∃ t', t.write (brinefile root) text = .ok t' ∧ Clear root t' ∧
      t'.node? (brinefile root) = some (.file text) ∧
      t'.node? (storePath root) = t.node? (storePath root) := by
  have hwithin : Within root (.file (brinefile root) text) := List.mem_cons_self
  obtain ⟨t', ht'⟩ := exists_apply hclear hwithin
  refine ⟨t', ht', hclear.of_apply hwithin ht', FileTree.node?_write_self ht', ?_⟩
  rw [node?_of_apply hwithin ht' storePath_mem_written, Change.textAt, Change.textAt,
    if_neg brinefile_ne_storePath]
  rfl

/-- After the changes of a plan the store has the document's pins, and the lookup that was made with
them is the one of the store. -/
theorem load_after (hclear : Clear root t) (hs : (PinStore.load (storePath root) t).result = .ok s)
    (d : Document) (blocks : List Block) :
    ∃ s', (PinStore.load (storePath root) (Change.after t (planOf root d s blocks).changes)).result = .ok s' ∧
      s'.Alike (s.merge d.pins.entries) ∧
      (d.pins.isEmpty = false →
        (Change.after t (planOf root d s blocks).changes).read (lookupPath root) =
          .ok (Lookup.text s'.pins.sorted Config.default.environments s'.overrides)) := by
  obtain ⟨-, -, hnodes⟩ := hclear.after (within_planOf root d s blocks)
  have hstore := hnodes _ storePath_mem_written
  rw [textAt_storePath] at hstore
  cases hempty : d.pins.isEmpty with
  | true =>
      rw [hempty] at hstore
      have hnone : d.pins.entries = [] := List.isEmpty_iff.mp hempty
      refine ⟨s, (PinStore.result_load_congr hstore).trans hs, ?_, nofun⟩
      rw [hnone]
      exact .refl s
  | false =>
      rw [hempty] at hstore
      have halike := PinStore.alike_back (s.merge d.pins.entries)
      refine ⟨_, PinStore.result_load_text hstore, halike, fun _ ↦ ?_⟩
      rw [FileTree.read, hnodes _ lookupPath_mem_written, textAt_lookupPath hempty, halike.lookupText]
      rfl

/-- A rewritten Brinefile is written, and then the project is run. -/
theorem run_rewrite (h : w.tree.write (brinefile root) text = .ok t) (speaker : Speaker) :
    ((rewrite root speaker text).run w).tree = ((run root .plain speaker).run { w with tree := t }).tree ∧
      ((rewrite root speaker text).run w).report.result =
        ((run root .plain speaker).run { w with tree := t }).report.result := by
  have hwritten : (Action.change Failure.disk (·.write (brinefile root) text)).run w =
      ⟨{ w with tree := t }, .ok ()⟩ := Action.run_change_ok h
  have hresult := congrArg (fun o ↦ o.report.result) hwritten
  obtain ⟨hworkspace, hrun⟩ := Action.run_bind_of_ok (f := fun _ ↦ run root .plain speaker) hresult
  rw [hwritten] at hworkspace hrun
  exact ⟨congrArg Workspace.tree hworkspace, hrun⟩

/-- One run: the store has the pins that the text declares, and keeps all others. -/
theorem rewrite_spec (hclear : Clear root w.tree)
    (hs : (PinStore.load (storePath root) w.tree).result = .ok s) (speaker : Speaker) (text : Text) :
    Clear root ((rewrite root speaker text).run w).tree ∧
      (∃ s', (PinStore.load (storePath root) ((rewrite root speaker text).run w).tree).result = .ok s' ∧
        s'.Alike (s.merge (declared text))) ∧
      Heeds root text w.tree ((rewrite root speaker text).run w) := by
  obtain ⟨t, ht, hclear', hsource, hstore⟩ := exists_write_brinefile hclear text
  obtain ⟨htree, hresult⟩ := run_rewrite ht speaker
  have hs' := (PinStore.result_load_congr hstore).trans hs
  cases hd : Document.ofText text with
  | error e =>
      obtain ⟨hfailed, hsame⟩ :=
        run_of_error (w := { w with tree := t }) speaker hclear'.unconfigured hsource hd
      have hnothing : declared text = [] := by rw [declared, hd]
      have hkept := htree.trans hsame
      rw [hkept, hnothing]
      refine ⟨hclear', ⟨s, hs', .refl s⟩, fun e' he' ↦ ?_, fun d hd' ↦ ?_, fun d hd' ↦ ?_⟩
      · cases hd.symm.trans he'
        exact ⟨hresult.trans hfailed, ht.trans (congrArg Except.ok hkept.symm)⟩
      · cases hd.symm.trans hd'
      · cases hd.symm.trans hd'
  | ok d =>
      obtain ⟨blocks, hmade, hafter⟩ := run_of_ok (w := { w with tree := t }) speaker hclear' hsource hs' hd
      obtain ⟨s', hload, halike, hlookup⟩ := load_after hclear' hs' d blocks
      have hdeclared : declared text = d.pins.entries := by rw [declared, hd]
      have hmoved := htree.trans hafter
      rw [hmoved, hdeclared]
      refine ⟨(hclear'.after (within_planOf root d s blocks)).2.1, ⟨s', hload, halike⟩, fun e he ↦ ?_,
        fun d' hd' ↦ ?_, fun d' hd' hpinned ↦ ?_⟩
      · cases hd.symm.trans he
      · cases hd.symm.trans hd'
        exact ⟨_, hresult.trans hmade, rfl⟩
      · cases hd.symm.trans hd'
        rw [hmoved]
        exact ⟨s', hload, hlookup (Document.isPinned_iff_pins.mp hpinned)⟩

/-- Over any runs the store keeps its pins. -/
theorem afterRuns_spec (hclear : Clear root w.tree)
    (hs : (PinStore.load (storePath root) w.tree).result = .ok s) (speaker : Speaker) (texts : List Text) :
    Clear root (afterRuns root speaker w texts).tree ∧
      ∃ s', (PinStore.load (storePath root) (afterRuns root speaker w texts).tree).result = .ok s' ∧
        s'.Alike (s.merge (texts.flatMap declared)) := by
  induction texts generalizing w s with
  | nil => exact ⟨hclear, s, hs, .refl s⟩
  | cons text texts ih =>
      obtain ⟨hclear', ⟨s', hs', halike'⟩, -⟩ := rewrite_spec hclear hs speaker text
      obtain ⟨hclear'', s'', hs'', halike''⟩ := ih hclear' hs'
      refine ⟨hclear'', s'', hs'', halike''.trans ?_⟩
      rw [List.flatMap_cons, ← PinStore.merge_append]
      exact halike'.merge _

/-- However often a Brinefile is rewritten and its project run, no pin is lost. The store holds what
it held at first with everything over it that the accepted texts declare, in their order, and has the
same pins for each environment; a rejected text changes nothing; and after every accepted text that
declares a version the lookup is made from the very store that is then on the disk. -/
theorem pins_afterRuns (hclear : Clear root w.tree)
    (hs : (PinStore.load (storePath root) w.tree).result = .ok s) (speaker : Speaker) (texts : List Text) :
    (∃ s', (PinStore.load (storePath root) (afterRuns root speaker w texts).tree).result = .ok s' ∧
      s'.Alike (s.merge (texts.flatMap declared)) ∧ s.pins.keys ⊆ s'.pins.keys) ∧
      ∀ before text after, texts = before ++ text :: after →
        Heeds root text (afterRuns root speaker w before).tree
          ((rewrite root speaker text).run (afterRuns root speaker w before)) := by
  refine ⟨?_, fun before text after _ ↦ ?_⟩
  · obtain ⟨-, s', hs', halike⟩ := afterRuns_spec hclear hs speaker texts
    refine ⟨s', hs', halike, fun k hk ↦ ?_⟩
    rw [Table.mem_keys_iff, halike.pins, ← Table.mem_keys_iff, PinStore.merge, Table.mem_keys_setAll]
    exact .inr hk
  · obtain ⟨hclear', s', hs', -⟩ := afterRuns_spec hclear hs speaker before
    exact (rewrite_spec hclear' hs' speaker text).2.2

/-- A package is pinned, then a text is rejected, then the package is pinned anew; the pin that was
there before stays. -/
theorem pins_afterRuns_three :
    let t : FileTree := ⟨.ofList [(.ofText "/maps/versions.json",
      .file "\x7b\"version\": 1, \"entries\": \x7b\"db.pg\": \"16\"\x7d\x7d")]⟩
    let texts : List Text := ["%rolename\nweb\n%description\nd\n%packages\nnginx=1.24\n", "%nonsense\n",
      "%rolename\nweb\n%description\nd\n%packages\nnginx=1.26\n"]
    Clear .top t ∧ (∃ s, (PinStore.load (storePath .top) t).result = .ok s) ∧
      ∃ s, (PinStore.load (storePath .top) (afterRuns .top .runner (.ofTree t) texts).tree).result = .ok s ∧
        s.pins.get? (Text.units "web.nginx") = some (Text.units "1.26") ∧
        s.pins.get? (Text.units "db.pg") = some (Text.units "16") := by
  intro t texts
  have hclear : Clear .top t := ⟨by decide +kernel, by decide +kernel, by decide +kernel⟩
  have hread : (PinStore.load (storePath .top) t).result.toOption.map (·.pins.entries) =
      some [(Text.units "db.pg", Text.units "16")] := by decide +kernel
  have hdeclared : texts.flatMap declared =
      [(Text.units "web.nginx", Text.units "1.24"), (Text.units "web.nginx", Text.units "1.26")] := by
    decide +kernel
  cases hs : (PinStore.load (storePath .top) t).result with
  | error e =>
      rw [hs] at hread
      cases hread
  | ok s =>
      rw [hs] at hread
      have hentries : s.pins.entries = [(Text.units "db.pg", Text.units "16")] := Option.some.inj hread
      obtain ⟨⟨s', hs', halike, -⟩, -⟩ := pins_afterRuns (w := .ofTree t) hclear hs .runner texts
      have hpins : ∀ k, s'.pins.get? k =
          (Table.lookup k [(Text.units "web.nginx", Text.units "1.26"),
            (Text.units "web.nginx", Text.units "1.24")]).or
              (Table.lookup k [(Text.units "db.pg", Text.units "16")]) := by
        intro k
        rw [halike.pins, PinStore.merge, Table.get?_setAll, hdeclared, ← hentries]
        rfl
      refine ⟨hclear, ⟨s, rfl⟩, s', hs', ?_, ?_⟩
      · rw [hpins]
        decide
      · rw [hpins]
        decide

end Project

end Saltern
