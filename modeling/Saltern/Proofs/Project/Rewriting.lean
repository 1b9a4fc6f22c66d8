import Saltern.Proofs.Brinefile.Settling
import Saltern.Proofs.Files.Repeat
import Saltern.Proofs.Project.Planning
import Saltern.Proofs.Project.Writing

/-!
# Rewritten sources

A run that was asked to format puts its source into canonical layout, behind everything else that it
writes. Runs that each find the source as the one before has left it come to one that leaves it alone.
-/

namespace Saltern

/-- Whether a run has put a source into canonical layout. -/
def Outcome.Rewrites (o : Outcome Failure Project.Compiled) (path : Path) : Prop :=
  ∃ r text, o.report.result = .ok r ∧ ⟨.source, path, text⟩ ∈ r.plan.files

namespace Change

variable {t : FileTree} {cs : List Change} {p : Path} {text : Text}

/-- The file written last is there when nothing was refused. -/
theorem node?_after_last (h : refusal? t (cs ++ [.file p text]) = none) :
    (after t (cs ++ [.file p text])).node? p = some (.file text) := by
  refine node?_after_of_textAt h ?_
  rw [textAt_append, textAt, textAt, if_pos rfl]
  rfl

end Change

namespace Project

variable {root path : Path} {q : Request} {speaker : Speaker} {w : Workspace} {t : FileTree} {c : Config}
  {s : Source} {r r' : Compiled} {text : Text} {as : List Artifact} {d : Document} {p : Plan}

/-! ## The plan of a run -/

/-- Only the source itself is written as a source. -/
theorem kind_of_mem_plan (h : (d.plan root c t).result = .ok p) {a : Artifact} (ha : a ∈ p.files) :
    a.kind ≠ .source := by
  obtain ⟨blocks, manifest, readme, files, -, hfiles⟩ := Document.exists_of_plan_ok h
  have hbase : ∀ a ∈ d.baseFiles blocks manifest readme, a.kind ≠ .source := by
    simp [Document.baseFiles]
  rcases hfiles with ⟨-, rfl⟩ | ⟨-, maps, store, -, -, rfl⟩
  · exact hbase a ha
  · rcases List.mem_append.mp ha with ha | ha
    · exact hbase a ha
    · revert ha
      simp only [Document.pinFiles, List.mem_cons, List.not_mem_nil, or_false]
      rintro (rfl | rfl) <;> nofun

/-- A source is written where formatting changes it. -/
theorem layoutFiles_spec (h : (layoutFiles s).result = .ok as) :
    ∃ f, Brinefile.format true s.text = .ok f ∧
      as = if f.changed then [⟨.source, s.path, f.text⟩] else [] := by
  obtain ⟨f, hf, h⟩ := Report.exists_of_bind_ok h
  exact ⟨f, Report.result_ofExcept_eq_ok.mp hf, (Except.ok.inj h).symm⟩

/-- A source whose document is accepted can be formatted. -/
theorem exists_layoutFiles (h : (document s).result = .ok d) : ∃ as, (layoutFiles s).result = .ok as := by
  have hread : Document.ofText s.text = .ok d := Report.result_ofExcept_eq_ok.mp h
  cases hb : Brinefile.ofText s.text with
  | error f =>
      rw [Document.ofText, hb] at hread
      cases hread
  | ok b =>
      rw [layoutFiles, Brinefile.format_of_ok hb]
      exact ⟨_, rfl⟩

theorem read_of_readSource (h : readSource path t = .ok text) : t.read path = .ok text := by
  rw [readSource] at h
  split at h
  · cases h
  · cases h
  · next u hread =>
    cases h
    exact hread

theorem node?_of_source (h : (source root q c t).result = .ok s) : t.node? s.path = some (.file s.text) := by
  obtain ⟨text, htext, h⟩ := Report.exists_of_bind_ok h
  obtain rfl := Except.ok.inj h
  exact FileTree.read_eq_ok_iff.mp (read_of_readSource (Report.result_ofExcept_eq_ok.mp htext))

/-- What is prepared is the document of the source and its plan; behind that the source itself, where
formatting was asked for and changes it. -/
theorem exists_of_prepare_ok (h : (prepare root q speaker c t).result = .ok r) :
    ∃ s d p f, (source root q c t).result = .ok s ∧ (document s).result = .ok d ∧
      (d.plan root c t).result = .ok p ∧ Brinefile.format true s.text = .ok f ∧
      r = ⟨d, { p with files := p.files ++
        if (q.format || c.formatEnabled) && f.changed then [⟨.source, s.path, f.text⟩] else [] }⟩ := by
  obtain ⟨s, hs, h⟩ := Report.exists_of_bind_ok h
  obtain ⟨d, hd, h⟩ := Report.exists_of_bind_ok h
  obtain ⟨-, -, h⟩ := Report.exists_of_bind_ok h
  obtain ⟨p, hp, h⟩ := Report.exists_of_bind_ok h
  obtain ⟨as, has⟩ := exists_layoutFiles hd
  obtain ⟨f, hf, rfl⟩ := layoutFiles_spec has
  refine ⟨s, d, p, f, hs, hd, hp, hf, ?_⟩
  split at h
  · next hasked =>
    obtain ⟨more, hmore, h⟩ := Report.exists_of_bind_ok h
    obtain rfl := Except.ok.inj (hmore.symm.trans has)
    rw [hasked, Bool.true_and]
    exact (Except.ok.inj h).symm
  · next hunasked =>
    rw [Bool.eq_false_iff.mpr hunasked, Bool.false_and, if_neg Bool.false_ne_true]
    exact (Except.ok.inj h).symm

/-- A plan in which a source is written writes it last, and writes what formatting makes of it. -/
theorem prepare_spec (h : (prepare root q speaker c t).result = .ok r)
    (ha : ⟨.source, path, text⟩ ∈ r.plan.files) :
    ∃ old files, t.node? path = some (.file old) ∧ Brinefile.format true old = .ok ⟨text, true⟩ ∧
      r.plan.files = files ++ [⟨.source, path, text⟩] := by
  obtain ⟨s, d, p, f, hs, -, hp, hf, rfl⟩ := exists_of_prepare_ok h
  rcases List.mem_append.mp ha with hfile | hsource
  · exact absurd rfl (kind_of_mem_plan hp hfile)
  · split at hsource
    · next hchanged =>
      obtain ⟨-, rfl, rfl⟩ := Artifact.mk.inj (List.mem_singleton.mp hsource)
      rw [Bool.and_eq_true] at hchanged
      refine ⟨s.text, p.files, node?_of_source hs, ?_, ?_⟩
      · rw [hf, ← hchanged.2]
      · rw [if_pos (Bool.and_eq_true .. ▸ hchanged)]
    · cases hsource

theorem exists_of_planned (h : ((planned root q speaker).run w).report.result = .ok r) :
    ∃ c, (prepare root q speaker c w.tree).result = .ok r := by
  obtain ⟨found, -, h⟩ := Action.exists_of_bind_ok h
  obtain ⟨c, -, h⟩ := Action.exists_of_bind_ok h
  refine ⟨c, ?_⟩
  rw [Action.run_look] at h
  have htree := looksOnly_config found w
  unfold Outcome.tree at htree
  rwa [← htree]

/-! ## What a run leaves -/

/-- A run that carries its plan out meets no refusal. -/
theorem carryOut_eq_ok (h : ((carryOut speaker r).run w).report.result = .ok r') :
    r' = r ∧ Change.refusal? w.tree r.plan.changes = none := by
  obtain ⟨-, hresult⟩ := r.plan.performs_write speaker w
  cases hr : Change.refusal? w.tree r.plan.changes with
  | some d =>
      rw [hr] at hresult
      rw [carryOut, (Action.run_bind_of_error hresult).2] at h
      cases h
  | none =>
      rw [hr] at hresult
      rw [carryOut, (Action.run_bind_of_ok hresult).2] at h
      refine ⟨?_, rfl⟩
      split at h <;> exact (Except.ok.inj h).symm

/-- A run that rewrites its source leaves there what formatting makes of it. -/
theorem rewrites_spec (h : ((run root q speaker).run w).Rewrites path) :
    ∃ old text, w.tree.node? path = some (.file old) ∧ Brinefile.format true old = .ok ⟨text, true⟩ ∧
      ((run root q speaker).run w).tree.node? path = some (.file text) := by
  obtain ⟨r, text, hr, ha⟩ := h
  rw [run_eq] at hr ⊢
  obtain ⟨r', hplanned, hcarried⟩ := Action.exists_of_bind_ok hr
  obtain ⟨rfl, hrefusal⟩ := carryOut_eq_ok hcarried
  obtain ⟨c, hprepared⟩ := exists_of_planned hplanned
  obtain ⟨old, files, hold, hformat, hfiles⟩ := prepare_spec hprepared ha
  have htree : ((planned root q speaker >>= carryOut speaker).run w).tree =
      Change.after w.tree r.plan.changes := by
    rw [← looksOnly_planned root q speaker w]
    unfold Outcome.tree
    rw [(Action.run_bind_of_ok hplanned).1]
    exact tree_carryOut speaker r _
  have hlast : r.plan.changes =
      (r.plan.directories.map .directory ++ files.map fun a ↦ .file a.path a.text) ++ [.file path text] := by
    rw [Plan.changes, hfiles, List.map_append, List.append_assoc]
    rfl
  have hnone : Change.refusal? w.tree r.plan.changes = none := by
    rw [← looksOnly_planned root q speaker w]
    exact hrefusal
  refine ⟨old, text, hold, hformat, ?_⟩
  rw [htree, hlast]
  exact Change.node?_after_last (hlast ▸ hnone)

end Project

end Saltern
