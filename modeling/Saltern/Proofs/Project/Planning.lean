import Saltern.Project.Plan
import Saltern.Proofs.Pins.Declared
import Saltern.Proofs.Pins.Lookup

/-!
# What a plan says about pins

The manifest imports the lookup of the pins exactly where the plan has one, and what the manifest
looks up is there in every environment.
-/

namespace Saltern

namespace Report

variable {ε δ α β : Type} {r : Report ε α} {f : α → Report ε β} {a : α} {b : β}

/-- Where reports in a row have a result, each of them does. -/
theorem exists_of_bind_ok (h : (r >>= f).result = .ok b) :
    ∃ a, r.result = .ok a ∧ (f a).result = .ok b := by
  rw [result_bind] at h
  cases hr : r.result with
  | error e =>
      rw [hr] at h
      cases h
  | ok a =>
      rw [hr] at h
      exact ⟨a, rfl, h⟩

theorem result_bind_of_ok (h : r.result = .ok a) : (r >>= f).result = (f a).result := by
  rw [result_bind, h]
  rfl

theorem bind_eq_ok_iff : (r >>= f).result = .ok b ↔ ∃ a, r.result = .ok a ∧ (f a).result = .ok b :=
  ⟨exists_of_bind_ok, fun ⟨_, hr, hf⟩ ↦ (result_bind_of_ok hr).trans hf⟩

theorem result_ofExcept_eq_ok {wrap : δ → ε} {x : Except δ α} :
    (ofExcept wrap x).result = .ok a ↔ x = .ok a := by
  cases x with
  | error d => exact iff_of_false nofun nofun
  | ok a' => exact ⟨fun h ↦ congrArg _ (Except.ok.inj h), fun h ↦ congrArg _ (Except.ok.inj h)⟩

end Report

namespace PinStore

theorem get?_merge (s : PinStore) (pins : Pins) (k : Units) :
    (s.merge pins.entries).pins.get? k = (pins.get? k).or (s.pins.get? k) :=
  Table.get?_setAll_entries s.pins pins k

end PinStore

/-- Whether some pins are those of an environment: the store's, with the document's own over them and
the environment's over both, their keys increasing. -/
structure Document.Layered (d : Document) (s : PinStore) (env : Text) (ps : List (Units × Units)) : Prop where
  increasing : (ps.map Prod.fst).Pairwise (· < ·)
  mem_keys_iff : ∀ k, k ∈ ps.map Prod.fst ↔
    k ∈ s.pins.keys ∨ (∃ i ∈ d.packages, i.isPinned = true ∧ d.keyOf i = k) ∨
      (s.override? env.units k).isSome = true
  lookup_eq : ∀ k, Table.lookup k ps =
    (s.override? env.units k).or ((d.lastVersion? k).or (s.pins.get? k))

namespace Document

variable {d : Document} {root : Path} {c : Config} {t : FileTree} {p : Plan}

/-- The pins of an environment, taken from the store with the document's own pins written over it. -/
theorem layered_inEnvironment {s : PinStore} {pins : Pins}
    (h : ∀ k, pins.get? k = (d.lastVersion? k).or (s.pins.get? k)) (env : Text) :
    d.Layered s env (pins.inEnvironment s.overrides env).entries := by
  have hget : ∀ k, (pins.inEnvironment s.overrides env).get? k =
      (s.override? env.units k).or ((d.lastVersion? k).or (s.pins.get? k)) := by
    intro k
    rw [Pins.get?_inEnvironment, h]
    rfl
  have hmem : ∀ k, k ∈ (pins.inEnvironment s.overrides env).keys ↔
      (s.override? env.units k).isSome = true ∨
        (∃ i ∈ d.packages, i.isPinned = true ∧ d.keyOf i = k) ∨ k ∈ s.pins.keys := by
    intro k
    rw [Table.mem_keys_iff, hget, Option.isSome_or, Option.isSome_or, Bool.or_eq_true, Bool.or_eq_true,
      isSome_lastVersion?_iff, ← Table.mem_keys_iff]
  refine ⟨Table.pairwise_keys_sorted _, fun k ↦ (hmem k).trans ?_, hget⟩
  rw [or_comm, or_assoc, or_left_comm]

/-- A plan that is made has blocks for its manifest and places within the project, and keeps pins where there are
any. -/
theorem exists_within_of_plan_ok (h : (d.plan root c t).result = .ok p) :
    ∃ blocks manifest readme files, d.blocks c.manifestOptions = .ok blocks ∧
      root.resolveWithin c.manifestFile = .ok manifest ∧ root.resolveWithin c.readmeFile = .ok readme ∧
      root.resolveWithin c.filesDir = .ok files ∧
      (d.pins.isEmpty = true ∧ p = ⟨root, [files], d.baseFiles blocks manifest readme, blocks, d.pins⟩ ∨
        d.pins.isEmpty = false ∧ ∃ maps s, root.resolveWithin c.mapsDir = .ok maps ∧
          (PinStore.load (maps.resolve PinStore.fileName) t).result = .ok s ∧
          p = ⟨root, [files, maps],
            d.baseFiles blocks manifest readme ++ pinFiles (s.merge d.pins.entries) c.environments maps,
            blocks, d.pins⟩) := by
  rw [plan] at h
  obtain ⟨blocks, hblocks, h⟩ := Report.exists_of_bind_ok h
  obtain ⟨manifest, hmanifest, h⟩ := Report.exists_of_bind_ok h
  obtain ⟨readme, hreadme, h⟩ := Report.exists_of_bind_ok h
  obtain ⟨files, hfiles, h⟩ := Report.exists_of_bind_ok h
  refine ⟨blocks, manifest, readme, files, Report.result_ofExcept_eq_ok.mp hblocks,
    Report.result_ofExcept_eq_ok.mp hmanifest, Report.result_ofExcept_eq_ok.mp hreadme,
    Report.result_ofExcept_eq_ok.mp hfiles, ?_⟩
  split at h
  · next hempty => exact .inl ⟨hempty, (Except.ok.inj h).symm⟩
  · next hempty =>
    obtain ⟨maps, hmaps, h⟩ := Report.exists_of_bind_ok h
    obtain ⟨s, hs, h⟩ := Report.exists_of_bind_ok h
    exact .inr ⟨Bool.eq_false_iff.mpr hempty, maps, s, Report.result_ofExcept_eq_ok.mp hmaps, hs,
      (Except.ok.inj h).symm⟩

/-- What a plan consists of, wherever its files lie. -/
theorem exists_of_plan_ok (h : (d.plan root c t).result = .ok p) :
    ∃ blocks manifest readme files, d.blocks c.manifestOptions = .ok blocks ∧
      (d.pins.isEmpty = true ∧ p = ⟨root, [files], d.baseFiles blocks manifest readme, blocks, d.pins⟩ ∨
        d.pins.isEmpty = false ∧ ∃ maps s, root.resolveWithin c.mapsDir = .ok maps ∧
          (PinStore.load (maps.resolve PinStore.fileName) t).result = .ok s ∧
          p = ⟨root, [files, maps],
            d.baseFiles blocks manifest readme ++ pinFiles (s.merge d.pins.entries) c.environments maps,
            blocks, d.pins⟩) := by
  obtain ⟨blocks, manifest, readme, files, hblocks, -, -, -, hpins⟩ := exists_within_of_plan_ok h
  exact ⟨blocks, manifest, readme, files, hblocks, hpins⟩

end Document

/-- Whether a plan's manifest and its lookup of pins fit together. -/
structure Plan.Coherent (p : Plan) (d : Document) (root : Path) (c : Config) (t : FileTree) : Prop where
  /-- The manifest is made of the blocks. -/
  manifest : ∃ a ∈ p.files, a.kind = .manifest ∧ a.text = manifestText (p.blocks.map Block.text)
  /-- The header imports the lookup exactly where a package is pinned. -/
  header : ∃ text rest, p.blocks = ⟨none, text⟩ :: rest ∧
    ('\n' :: Document.lookupImport (d.setup c.manifestOptions) <:+ text ↔ d.isPinned = true)
  pinStore : (∃ a ∈ p.files, a.kind = .pinStore) ↔ d.isPinned = true
  pinLookup : (∃ a ∈ p.files, a.kind = .pinLookup) ↔ d.isPinned = true
  /-- The states of the packages ask for the versions of those that are pinned. -/
  versions : d.packages ≠ [] → ∃ ss : List Stanza,
    ⟨some .packages, Text.joinWith ['\n', '\n'] (Concern.packages.banner :: ss.map Stanza.text)⟩ ∈ p.blocks ∧
      Stanza.versions ss =
        (d.packages.filter Item.isPinned).map fun i ↦ (d.setup c.manifestOptions).versionLookup i.target
  /-- Read line by line, the lookup has every environment in its place, with the pins of the store
  that was there, and with them the key of every pinned package. -/
  lookup : ∀ a ∈ p.files, a.kind = .pinLookup → ∃ maps s entries,
    root.resolveWithin c.mapsDir = .ok maps ∧ a.path = maps.resolve lookupFile ∧
      (PinStore.load (maps.resolve PinStore.fileName) t).result = .ok s ∧
      Lookup.read? a.text = some entries ∧
      List.Forall₂ (fun env e ↦ e.1 = env.units ∧ d.Layered s env e.2) c.environments.names entries ∧
      ∀ e ∈ entries, ∀ i ∈ d.packages, i.isPinned = true → d.keyOf i ∈ e.2.map Prod.fst

namespace Document

variable {d : Document} {root : Path} {c : Config} {t : FileTree} {p : Plan}

/-- An entry of the lookup that is made from a store and a document's own pins. -/
theorem layered_entry (d : Document) (s : PinStore) (env : Text) :
    d.Layered s env (Lookup.entry (s.merge d.pins.entries).pins.sorted s.overrides env).2 := by
  refine layered_inEnvironment (fun k ↦ ?_) env
  rw [Table.get?_sorted, PinStore.get?_merge, get?_pins]

variable {blocks : List Block} {manifest readme maps : Path} {a : Artifact}

/-- Neither the manifest nor the README keeps pins. -/
theorem kind_of_mem_baseFiles (ha : a ∈ d.baseFiles blocks manifest readme) :
    a.kind ≠ .pinStore ∧ a.kind ≠ .pinLookup := by
  rcases List.mem_cons.mp ha with rfl | ha
  · exact ⟨nofun, nofun⟩
  · rw [List.mem_singleton.mp ha]
    exact ⟨nofun, nofun⟩

/-- Of all files only the last is a lookup of pins. -/
theorem eq_of_mem_pinFiles {s : PinStore} {e : Environments}
    (ha : a ∈ d.baseFiles blocks manifest readme ++ pinFiles s e maps) (hkind : a.kind = .pinLookup) :
    a = ⟨.pinLookup, maps.resolve lookupFile, Lookup.text s.pins.sorted e s.overrides⟩ := by
  rcases List.mem_append.mp ha with ha | ha
  · exact absurd hkind (kind_of_mem_baseFiles ha).2
  · rcases List.mem_cons.mp ha with rfl | ha
    · cases hkind
    · exact List.mem_singleton.mp ha

/-- Where a plan is made, its manifest and its lookup of pins fit together. -/
theorem plan_coherent (h : (d.plan root c t).result = .ok p) : p.Coherent d root c t := by
  obtain ⟨blocks, manifest, readme, files, hblocks, hpins⟩ := exists_of_plan_ok h
  have hversions := exists_package_block hblocks
  obtain ⟨rest, -, rfl⟩ := exists_of_blocks hblocks
  have hheader := lookupImport_isSuffix_iff (d.setup c.manifestOptions) d
  have hpinned := d.isPinned_iff_pins
  rcases hpins with ⟨hempty, rfl⟩ | ⟨hsome, maps, s, hmaps, hs, rfl⟩
  · have hno : ¬ d.isPinned = true := by
      rw [hpinned, hempty]
      exact Bool.true_eq_false.mp
    exact ⟨⟨_, List.mem_cons_self, rfl, rfl⟩, ⟨_, rest, rfl, hheader⟩,
      iff_of_false (fun ⟨_, ha, hkind⟩ ↦ (kind_of_mem_baseFiles ha).1 hkind) hno,
      iff_of_false (fun ⟨_, ha, hkind⟩ ↦ (kind_of_mem_baseFiles ha).2 hkind) hno, hversions,
      fun _ ha hkind ↦ absurd hkind (kind_of_mem_baseFiles ha).2⟩
  · have hyes : d.isPinned = true := hpinned.mpr hsome
    refine ⟨⟨_, List.mem_cons_self, rfl, rfl⟩, ⟨_, rest, rfl, hheader⟩, iff_of_true ?_ hyes,
      iff_of_true ?_ hyes, hversions, fun a ha hkind ↦ ?_⟩
    · exact ⟨_, List.mem_append_right _ List.mem_cons_self, rfl⟩
    · exact ⟨_, List.mem_append_right _ (List.mem_cons_of_mem _ List.mem_cons_self), rfl⟩
    · obtain rfl := eq_of_mem_pinFiles ha hkind
      refine ⟨maps, s, _, hmaps, rfl, hs, Lookup.read?_text _ _ _, ?_, ?_⟩
      · rw [List.forall₂_map_right_iff, List.forall₂_same]
        exact fun env _ ↦ ⟨rfl, layered_entry d s env⟩
      · intro e he i hi hi'
        obtain ⟨env, -, rfl⟩ := List.mem_map.mp he
        exact ((layered_entry d s env).mem_keys_iff _).mpr (.inr (.inl ⟨i, hi, hi', rfl⟩))

/-- A role with a pinned package, in a project that pins another one already. -/
theorem plan_coherent_one_package :
    let nginx : Item := ⟨.package, "nginx", .present (some "1.24"), 8⟩
    let d : Document := ⟨.role, "web", "d", none, [], .empty, [nginx], [], [], [], [], [], [], []⟩
    let t : FileTree := ⟨.ofList [(.ofText "/maps/versions.json",
      .file "\x7b\"version\": 1, \"entries\": \x7b\"db.pg\": \"16\"\x7d\x7d")]⟩
    ∃ p, (d.plan .top .default t).result = .ok p ∧ p.Coherent d .top .default t := by
  intro nginx d t
  have hmade : (d.plan .top .default t).result.isOk = true := by decide +kernel
  cases h : (d.plan .top .default t).result with
  | error e =>
      rw [h] at hmade
      cases hmade
  | ok p => exact ⟨p, rfl, plan_coherent h⟩

end Document

end Saltern
