import Saltern.Proofs.Files.Within
import Saltern.Proofs.Project.Planning

/-!
# Plans stay in their project

A configured path leads to a place in the project or is refused, and everything that a plan makes or writes lies at
such a place or right below one. The store of the pins is looked at only when its directory has been found to lie in
the project.
-/

namespace Saltern

namespace Report

variable {ε α β : Type} {r : Report ε α} {f g : α → Report ε β}

/-- What follows on a result matters only where there is one. -/
theorem bind_congr_of_ok (h : ∀ a, r.result = .ok a → f a = g a) : r >>= f = r >>= g := by
  change andThen r f = andThen r g
  unfold andThen
  cases hr : r.result with
  | error e => rfl
  | ok a =>
      dsimp only
      rw [h a hr]

end Report

namespace PinStore

/-- Loading looks at nothing but the store's path. -/
theorem load_congr {p : Path} {t u : FileTree} (h : t.node? p = u.node? p) : load p t = load p u := by
  have hread : (t.read p).toOption = (u.read p).toOption := by
    rw [FileTree.read, FileTree.read, h]
    rcases u.node? p with _ | _ | _ <;> rfl
  rw [load, load, FileTree.holds, FileTree.holds, h, hread]

end PinStore

/-- Where something is to be made or written. -/
def Plan.places (p : Plan) : List Path := p.directories ++ p.files.map (·.path)

/-- Whether all that is planned for a document lies in its project, and nothing is looked at for it but the store of
the pins: that lies in the project too, and where its directory does not, not even the store is looked at. -/
structure Document.Confined (d : Document) (root : Path) (c : Config) (t : FileTree) : Prop where
  places : ∀ p, (d.plan root c t).result = .ok p → ∀ q ∈ p.places, root.parts <+: q.parts
  store : ∀ maps, root.resolveWithin c.mapsDir = .ok maps → root.parts <+: (maps.resolve PinStore.fileName).parts
  looks : ∀ t' : FileTree, (∀ maps, root.resolveWithin c.mapsDir = .ok maps →
    t'.node? (maps.resolve PinStore.fileName) = t.node? (maps.resolve PinStore.fileName)) →
    d.plan root c t' = d.plan root c t

namespace Document

variable {d : Document} {root : Path} {c : Config} {t : FileTree} {p : Plan} {q : Path}

theorem places_baseFiles (d : Document) (blocks : List Block) (manifest readme : Path) :
    (d.baseFiles blocks manifest readme).map (·.path) = [manifest, readme] := rfl

theorem places_pinFiles (s : PinStore) (e : Environments) (maps : Path) :
    (pinFiles s e maps).map (·.path) =
      [maps.child PinStore.fileName (by decide), maps.child lookupFile (by decide)] := by
  rw [← Path.resolve_eq_child, ← Path.resolve_eq_child]
  rfl

/-- Every place of a plan is one that a configured path leads to, or right below one. -/
theorem exists_of_mem_places (h : (d.plan root c t).result = .ok p) (hq : q ∈ p.places) :
    ∃ setting place, root.resolveWithin setting = .ok place ∧ place.parts <+: q.parts := by
  obtain ⟨blocks, manifest, readme, files, -, hmanifest, hreadme, hfiles, hpins⟩ := exists_within_of_plan_ok h
  have hbase : ∀ q ∈ [manifest, readme, files], ∃ setting place,
      root.resolveWithin setting = .ok place ∧ place.parts <+: q.parts := by
    simp only [List.forall_mem_cons, List.not_mem_nil, false_imp_iff, implies_true, and_true]
    exact ⟨⟨_, _, hmanifest, List.prefix_rfl⟩, ⟨_, _, hreadme, List.prefix_rfl⟩, ⟨_, _, hfiles, List.prefix_rfl⟩⟩
  rcases hpins with ⟨-, rfl⟩ | ⟨-, maps, s, hmaps, -, rfl⟩
  · rw [Plan.places, places_baseFiles] at hq
    refine hbase q ?_
    simp only [List.mem_append, List.mem_cons, List.not_mem_nil, or_false] at hq ⊢
    tauto
  · rw [Plan.places, List.map_append, places_baseFiles, places_pinFiles] at hq
    simp only [List.mem_append, List.mem_cons, List.not_mem_nil, or_false] at hq
    rcases hq with (rfl | rfl) | (rfl | rfl) | rfl | rfl
    · exact hbase _ (by simp)
    · exact ⟨_, _, hmaps, List.prefix_rfl⟩
    · exact hbase _ (by simp)
    · exact hbase _ (by simp)
    · exact ⟨_, _, hmaps, List.prefix_append _ _⟩
    · exact ⟨_, _, hmaps, List.prefix_append _ _⟩

/-- A plan depends on the file tree only through the store, and not at all where the store would lie elsewhere. -/
theorem plan_congr {t' : FileTree} (h : ∀ maps, root.resolveWithin c.mapsDir = .ok maps →
    t'.node? (maps.resolve PinStore.fileName) = t.node? (maps.resolve PinStore.fileName)) :
    d.plan root c t' = d.plan root c t := by
  rw [plan, plan]
  refine Report.bind_congr_of_ok fun blocks _ ↦ Report.bind_congr_of_ok fun manifest _ ↦
    Report.bind_congr_of_ok fun readme _ ↦ Report.bind_congr_of_ok fun files _ ↦ ?_
  split
  · rfl
  · refine Report.bind_congr_of_ok fun maps hmaps ↦ ?_
    rw [PinStore.load_congr (h maps (Report.result_ofExcept_eq_ok.mp hmaps))]

theorem confined (d : Document) (root : Path) (c : Config) (t : FileTree) : d.Confined root c t := by
  refine ⟨fun p hp q hq ↦ ?_, fun maps hmaps ↦ ?_, fun t' h ↦ plan_congr h⟩
  · obtain ⟨setting, place, hplace, hbelow⟩ := exists_of_mem_places hp hq
    exact (Path.resolveWithin_eq_ok_iff.mp hplace).2.trans hbelow
  · rw [Path.resolve_eq_child maps (by decide)]
    exact (Path.resolveWithin_eq_ok_iff.mp hmaps).2.trans (List.prefix_append _ _)

end Document

namespace Project

open Saltern.Path in
/-- A text leads somewhere from a directory exactly where the path that it names behind the directory has all parts
of the directory in front, and it then leads to that path; and so all that is planned for a document lies in its
project, and the store is looked at only when its directory does. -/
theorem stays_within (root : Text) :
    (∀ t p, (ofText root).resolveWithin t = .ok p ↔
      ∃ dir, Names root dir ∧ Names (behind root t) p ∧ dir.parts <+: p.parts) ∧
    (∀ t o, (ofText root).resolveWithin t = .error o ↔
      Names root o.root ∧ Names (behind root t) o.target ∧ ¬ o.root.parts <+: o.target.parts) ∧
    ∀ (d : Document) (c : Config) (t : FileTree), d.Confined (ofText root) c t := by
  simp only [names_iff, ofText_behind]
  refine ⟨fun t p ↦ ?_, fun t o ↦ resolveWithin_eq_error_iff, fun d c t ↦ d.confined _ c t⟩
  rw [resolveWithin_eq_ok_iff]
  exact ⟨fun h ↦ ⟨_, rfl, h⟩, fun ⟨_, hdir, h⟩ ↦ hdir ▸ h⟩

open Saltern.Path in
/-- A sibling whose name goes on is refused, a way through other directories is not, and a plan with pins stays. -/
theorem stays_within_siblings :
    let root : Text := "/srv//web/"
    let nginx : Item := ⟨.package, "nginx", .present (some "1.24"), 8⟩
    let d : Document := ⟨.role, "web", "d", none, [], .empty, [nginx], [], [], [], [], [], [], []⟩
    let c : Config := { Config.default with mapsDir := "../web/./pins/" }
    (ofText root).resolveWithin "../web-old" = .error ⟨ofText "/srv/web", ofText "/srv/web-old"⟩ ∧
      (ofText root).resolveWithin c.mapsDir = .ok (ofText "/srv/web/pins") ∧
      ∃ p, (d.plan (ofText root) c .empty).result = .ok p ∧
        ofText "/srv/web/pins/versions.json" ∈ p.places ∧ ∀ q ∈ p.places, (ofText root).parts <+: q.parts := by
  intro root nginx d c
  obtain ⟨hok, herror, hconfined⟩ := stays_within root
  refine ⟨(herror _ _).mpr ⟨names_iff.mpr (by decide +kernel), names_iff.mpr (by decide +kernel), by decide +kernel⟩,
    (hok _ _).mpr ⟨ofText "/srv/web", names_iff.mpr (by decide +kernel), names_iff.mpr (by decide +kernel),
      by decide +kernel⟩, ?_⟩
  have hmade : ((d.plan (ofText root) c .empty).result.toOption.map fun p ↦
      decide (ofText "/srv/web/pins/versions.json" ∈ p.places)) = some true := by decide +kernel
  cases h : (d.plan (ofText root) c .empty).result with
  | error e =>
      rw [h] at hmade
      cases hmade
  | ok p =>
      rw [h] at hmade
      exact ⟨p, rfl, of_decide_eq_true (Option.some.inj hmade), (hconfined d c .empty).places p h⟩

end Project

end Saltern
