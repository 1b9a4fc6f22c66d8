import Saltern.Proofs.Salt.Manifest
import Saltern.Proofs.Table.Sorted

/-!
# What a document pins

Three passes go over a document's packages: one asks whether any is pinned, one collects the pins,
one writes the states that look the versions up. They agree on which packages are pinned.
-/

namespace Saltern

/-- Whether an item is to be there with a value. -/
def Item.isPinned (i : Item) : Bool := i.value?.isSome

namespace Document

variable {d : Document} {k : Units}

/-- The key of a package among the pins. -/
def keyOf (d : Document) (i : Item) : Units := (pinKey d.name i.target).units

/-- The version of the last pinned package with a key. -/
def lastVersion? (d : Document) (k : Units) : Option Units :=
  d.packages.reverse.findSome? fun i ↦ if d.keyOf i = k then i.value?.map Text.units else none

/-! ## Collecting the pins -/

theorem lookup_filterMap_pin? (d : Document) (k : Units) (is : List Item) :
    Table.lookup k (is.filterMap (Item.pin? d.name)) =
      is.findSome? fun i ↦ if d.keyOf i = k then i.value?.map Text.units else none := by
  induction is with
  | nil => rfl
  | cons i is ih =>
      rw [List.filterMap_cons, List.findSome?_cons]
      cases hvalue : i.value? with
      | none =>
          have hpin : i.pin? d.name = none := by rw [Item.pin?, hvalue]; rfl
          rw [hpin, Option.map_none, ite_self]
          exact ih
      | some version =>
          have hpin : i.pin? d.name = some (d.keyOf i, version.units) := by rw [Item.pin?, hvalue]; rfl
          rw [hpin]
          by_cases hk : d.keyOf i = k
          · simp only [Table.lookup, if_pos hk, Option.map_some]
          · simp only [Table.lookup, if_neg hk]
            exact ih

/-- Of packages with one key the last pinned one counts. -/
theorem get?_pins (d : Document) (k : Units) : d.pins.get? k = d.lastVersion? k := by
  rw [pins, Table.get?_ofList, ← List.filterMap_reverse, lookup_filterMap_pin?, lastVersion?]

theorem isSome_lastVersion?_iff :
    (d.lastVersion? k).isSome = true ↔ ∃ i ∈ d.packages, i.isPinned = true ∧ d.keyOf i = k := by
  simp only [lastVersion?, List.findSome?_isSome_iff, List.mem_reverse]
  refine exists_congr fun i ↦ and_congr_right fun _ ↦ ?_
  by_cases hk : d.keyOf i = k <;> simp [hk, Item.isPinned]

/-- The pins are collected from the packages that make a document pinned. -/
theorem isPinned_iff_pins : d.isPinned = true ↔ d.pins.isEmpty = false := by
  have hkeys : ∀ k, k ∈ d.pins.keys ↔ ∃ i ∈ d.packages, i.isPinned = true ∧ d.keyOf i = k := by
    intro k
    rw [Table.mem_keys_iff, get?_pins, isSome_lastVersion?_iff]
  rw [isPinned, List.any_eq_true, Table.isEmpty, List.isEmpty_eq_false_iff]
  constructor
  · rintro ⟨i, hi, hpinned⟩ hnil
    have hmem := (hkeys (d.keyOf i)).mpr ⟨i, hi, hpinned, rfl⟩
    rw [Table.keys, hnil] at hmem
    cases hmem
  · intro hne
    obtain ⟨e, es, hes⟩ := List.exists_cons_of_ne_nil hne
    have hmem : e.1 ∈ d.pins.keys := by
      rw [Table.keys, hes]
      exact List.mem_cons_self
    obtain ⟨i, hi, hpinned, -⟩ := (hkeys e.1).mp hmem
    exact ⟨i, hi, hpinned⟩

end Document

/-! ## Looking the versions up -/

/-- The versions that some states ask for, in order. -/
def Stanza.versions (ss : List Stanza) : List Text :=
  (ss.flatMap (·.params)).filterMap fun p ↦ if p.1 = "version".toList then some p.2 else none

namespace Setup

variable {s : Setup}

theorem eq_map_of_items {kind : ItemKind} {declare : Text → ItemState → Declaration} {is : List Item}
    {ds : List Declaration} (h : items kind declare is = .ok ds) :
    ds = is.map fun i ↦ declare i.target i.state := by
  rw [items, mapM_eq_ok_iff] at h
  induction h with
  | nil => rfl
  | cons hi _ ih =>
      split at hi
      · cases hi
        rw [List.map_cons, ih]
      · cases hi

/-- The version that a package's state asks for, if any. -/
theorem versions_package (i : Item) :
    ((s.package i.target i.state).params.filterMap fun p ↦
        if p.1 = "version".toList then some p.2 else none) =
      if i.isPinned then [s.versionLookup i.target] else [] := by
  rw [Item.isPinned, Item.value?]
  rcases i.state with (_ | version) | _ <;> rfl

end Setup

namespace Document

variable {d : Document} {s : Setup} {ids : StateIds} {c : Concern} {cs : List Concern} {bs : List Block}

theorem map_params_stanzas (ids : StateIds) (ds : List Declaration) :
    (stanzas ids ds).1.map (·.params) = ds.map (·.params) := by
  have hlength := ids.length_claimAll (ds.map (·.wanted))
  rw [List.length_map] at hlength
  simp only [stanzas]
  generalize (ids.claimAll (ds.map (·.wanted))).1 = got at hlength
  induction ds generalizing got with
  | nil => rw [List.zipWith_nil_right]; rfl
  | cons x ds ih =>
      obtain ⟨id, got, rfl⟩ := List.exists_cons_of_length_eq_add_one hlength
      rw [List.zipWith_cons_cons, List.map_cons, List.map_cons, ih got (Nat.succ.inj hlength)]

theorem exists_stanzas_of_chunks {texts : List Text} {ids' : StateIds} (hc : c ≠ .includes)
    (h : d.chunks s ids c = .ok (texts, ids')) :
    ∃ (ds : List Declaration) (ss : List Stanza), s.declarations d c = .ok ds ∧
      ss.map (·.params) = ds.map (·.params) ∧ texts = ss.map Stanza.text := by
  rw [chunks, if_neg hc] at h
  cases hds : s.declarations d c with
  | error e =>
      rw [hds] at h
      cases h
  | ok ds =>
      rw [hds] at h
      cases h
      exact ⟨ds, (stanzas ids ds).1, rfl, map_params_stanzas ids ds, rfl⟩

/-- A concern's part of a manifest, before those of the others. -/
theorem exists_of_blocksOf_cons (h : d.blocksOf s ids (c :: cs) = .ok bs) :
    ∃ texts ids' rest, d.chunks s ids c = .ok (texts, ids') ∧ d.blocksOf s ids' cs = .ok rest ∧
      bs = if texts.isEmpty then rest
        else ⟨some c, Text.joinWith ['\n', '\n'] (c.banner :: texts)⟩ :: rest := by
  rw [blocksOf] at h
  cases hchunks : d.chunks s ids c with
  | error e =>
      rw [hchunks] at h
      cases h
  | ok found =>
      obtain ⟨texts, ids'⟩ := found
      rw [hchunks] at h
      dsimp only at h
      cases hrest : d.blocksOf s ids' cs with
      | error e =>
          rw [hrest] at h
          cases h
      | ok rest =>
          rw [hrest] at h
          refine ⟨texts, ids', rest, rfl, hrest, ?_⟩
          dsimp only at h
          split at h
          · next hempty => rw [if_pos hempty, ← Except.ok.inj h]
          · next hempty => rw [if_neg hempty, ← Except.ok.inj h]

/-- Where the blocks of some concerns are made, the one of a concern with declarations is among
them, and consists of their states. -/
theorem exists_block_of_blocksOf (h : d.blocksOf s ids cs = .ok bs) (hc : c ∈ cs) (hne : c ≠ .includes) :
    ∃ ds, s.declarations d c = .ok ds ∧
      (ds ≠ [] → ∃ ss : List Stanza, ss.map (·.params) = ds.map (·.params) ∧
        ⟨some c, Text.joinWith ['\n', '\n'] (c.banner :: ss.map Stanza.text)⟩ ∈ bs) := by
  induction cs generalizing ids bs with
  | nil => cases hc
  | cons c' cs ih =>
      obtain ⟨texts, ids', rest, hchunks, hrest, rfl⟩ := exists_of_blocksOf_cons h
      rcases List.mem_cons.mp hc with rfl | hc
      · obtain ⟨ds, ss, hds, hparams, rfl⟩ := exists_stanzas_of_chunks hne hchunks
        refine ⟨ds, hds, fun hsome ↦ ⟨ss, hparams, ?_⟩⟩
        have hempty : ¬ (ss.map Stanza.text).isEmpty = true := by
          rw [List.isEmpty_iff, List.map_eq_nil_iff]
          rintro rfl
          exact hsome (List.map_eq_nil_iff.mp hparams.symm)
        rw [if_neg hempty]
        exact List.mem_cons_self
      · obtain ⟨ds, hds, hblock⟩ := ih hrest hc
        refine ⟨ds, hds, fun hsome ↦ ?_⟩
        obtain ⟨ss, hparams, hmem⟩ := hblock hsome
        refine ⟨ss, hparams, ?_⟩
        split
        · exact hmem
        · exact List.mem_cons_of_mem _ hmem

/-- The blocks of a document are its header and those of the concerns. -/
theorem exists_of_blocks {o : ManifestOptions} (h : d.blocks o = .ok bs) :
    ∃ rest, d.blocksOf (d.setup o) .fresh Concern.order = .ok rest ∧
      bs = ⟨none, Text.joinWith ['\n'] (d.headerLines (d.setup o))⟩ :: rest := by
  rw [blocks] at h
  cases hrest : d.blocksOf (d.setup o) .fresh Concern.order with
  | error e =>
      rw [hrest] at h
      cases h
  | ok rest =>
      rw [hrest] at h
      exact ⟨rest, rfl, (Except.ok.inj h).symm⟩

/-- The states of a document's packages are what is declared about each of them. -/
theorem exists_package_stanzas {o : ManifestOptions} (h : d.blocks o = .ok bs) (hne : d.packages ≠ []) :
    ∃ ss : List Stanza,
      ⟨some .packages, Text.joinWith ['\n', '\n'] (Concern.packages.banner :: ss.map Stanza.text)⟩ ∈ bs ∧
      ss.map (·.params) = d.packages.map fun i ↦ ((d.setup o).package i.target i.state).params := by
  obtain ⟨rest, hrest, rfl⟩ := exists_of_blocks h
  obtain ⟨ds, hds, hblock⟩ := exists_block_of_blocksOf hrest (Concern.mem_order .packages) (by decide)
  have hmap := Setup.eq_map_of_items hds
  obtain ⟨ss, hparams, hmem⟩ := hblock (by rw [hmap]; simpa using hne)
  refine ⟨ss, List.mem_cons_of_mem _ hmem, ?_⟩
  rw [hparams, hmap, List.map_map]
  rfl

/-- They ask for the versions of those that are pinned. -/
theorem exists_package_block {o : ManifestOptions} (h : d.blocks o = .ok bs) (hne : d.packages ≠ []) :
    ∃ ss : List Stanza,
      ⟨some .packages, Text.joinWith ['\n', '\n'] (Concern.packages.banner :: ss.map Stanza.text)⟩ ∈ bs ∧
      Stanza.versions ss =
        (d.packages.filter Item.isPinned).map fun i ↦ (d.setup o).versionLookup i.target := by
  obtain ⟨ss, hmem, hparams⟩ := exists_package_stanzas h hne
  refine ⟨ss, hmem, ?_⟩
  rw [Stanza.versions, List.flatMap_def, hparams, ← List.flatMap_def, List.filterMap_flatMap]
  simp only [Setup.versions_package]
  induction d.packages with
  | nil => rfl
  | cons i is ih =>
      rw [List.flatMap_cons, ih, List.filter_cons]
      split <;> rfl

/-! ## The header -/

/-- A header ends with the import of the lookup exactly where a package is pinned. -/
theorem lookupImport_isSuffix_iff (s : Setup) (d : Document) :
    '\n' :: lookupImport s <:+ Text.joinWith ['\n'] (d.headerLines s) ↔ d.isPinned = true := by
  have hcomments : ['#'] :: ("# ".toList ++ d.name) :: ['#'] ::
      ((Text.splitOn '\n' d.description).map fun l ↦ "#   ".toList ++ l) ≠ [] := List.cons_ne_nil _ _
  generalize hcs : ['#'] :: ("# ".toList ++ d.name) :: ['#'] ::
    ((Text.splitOn '\n' d.description).map fun l ↦ "#   ".toList ++ l) = comments at hcomments
  have hheader : d.headerLines s = comments ++ ['#'] :: d.importLines s := by
    rw [← hcs]
    rfl
  have himport : d.importLines s = if d.isPinned then [[], lookupImport s] else [] := rfl
  rw [hheader, himport]
  cases d.isPinned with
  | true =>
      have hlines : comments ++ ['#'] :: [[], lookupImport s] =
          (comments ++ [['#'], []]) ++ [lookupImport s] := by simp
      have hne : comments ++ [['#'], []] ≠ [] := List.append_ne_nil_of_left_ne_nil hcomments _
      refine iff_of_true ?_ rfl
      rw [if_pos rfl, hlines, Text.joinWith_concat hne, List.append_assoc]
      exact List.suffix_append _ _
  | false =>
      refine iff_of_false (fun ⟨before, hbefore⟩ ↦ ?_) Bool.false_ne_true
      obtain ⟨body, hbody⟩ : ∃ body, lookupImport s = body ++ ['\x7d'] :=
        ⟨_, (List.append_assoc _ "\" import versions with context %".toList _).symm⟩
      rw [if_neg Bool.false_ne_true, Text.joinWith_concat hcomments, hbody, ← List.cons_append,
        ← List.append_assoc] at hbefore
      have hlast := (List.append_inj' hbefore rfl).2
      cases hlast

end Document

end Saltern
