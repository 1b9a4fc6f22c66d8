import Saltern.Proofs.Document.Accepted

/-!
# The lines of a manifest

What a document declares comes out as it is declared: one stanza an entry, each under an id of its
own, and nothing an entry says can start a line at the margin.
-/

namespace Saltern

open Text

/-! ## Stanzas -/

theorem isRoot_of_isId {id : Text} (h : IsId id) : isRoot (id ++ [':']) = true := by
  cases id with
  | nil => rfl
  | cons c id =>
      have hc : isIdChar c = true := h c List.mem_cons_self
      have hspace : c ≠ ' ' := by
        rintro rfl
        exact absurd hc (by decide)
      have hhash : c ≠ '#' := by
        rintro rfl
        exact absurd hc (by decide)
      simp [isRoot, hspace, hhash]

/-- A stanza starts one line at the margin, the one of its id. -/
theorem Stanza.rootLines_text {s : Stanza} (hid : IsId s.id) (hf : IsLine s.function)
    (hp : OneLineParams s.params) : rootLines s.text = [s.id ++ [':']] := by
  have hfirst : rootLines (s.id ++ [':']) = [s.id ++ [':']] := by
    rw [rootLines_of_isLine (hid.isLine.append (by decide)), isRoot_of_isId hid]
    rfl
  have hsecond : rootLines ("  ".toList ++ s.function ++ [':']) = [] :=
    rootLines_of_not_isRoot (.append (.append (by decide) hf) (by decide)) rfl
  have hparams : s.params.flatMap (rootLines ∘ paramLine) = [] := by
    refine List.flatMap_eq_nil_iff.mpr fun p hp' ↦ ?_
    obtain ⟨hkey, hvalue⟩ := hp p hp'
    exact rootLines_of_not_isRoot (.append (.append (.append (by decide) hkey) (by decide)) hvalue) rfl
  rw [text, rootLines_joinWith_newline, List.flatMap_cons, List.flatMap_cons, List.flatMap_map, hfirst,
    hsecond]
  simpa using hparams

theorem Concern.rootLines_banner (c : Concern) : rootLines c.banner = [] := by
  have htitle : IsLine c.title := by cases c <;> decide
  have hreference : IsLine c.reference := by cases c <;> decide +kernel
  rw [banner, rootLines_joinWith_newline, List.flatMap_cons, List.flatMap_cons, List.flatMap_singleton,
    rootLines_of_not_isRoot (.append (by decide) htitle) rfl,
    rootLines_of_not_isRoot (.append (by decide) hreference) rfl]
  rfl

/-! ## What a document declares -/

/-- Whether every item lies in the list of its kind. -/
structure Document.InPlace (d : Document) : Prop where
  packages : ∀ i ∈ d.packages, i.kind = .package
  files : ∀ i ∈ d.files, i.kind = .file
  directories : ∀ i ∈ d.directories, i.kind = .directory
  services : ∀ i ∈ d.services, i.kind = .service

theorem Document.Filed.inPlace {d : Document} (h : d.Filed) : d.InPlace :=
  ⟨fun i hi ↦ (h.packages i hi).kind_eq, fun i hi ↦ (h.files i hi).kind_eq,
    fun i hi ↦ (h.directories i hi).kind_eq, fun i hi ↦ (h.services i hi).kind_eq⟩

namespace Setup

variable {s : Setup} {d : Document} {c : Concern}

/-- The declarations about a concern, one for each of its entries. -/
def declared (s : Setup) (d : Document) : Concern → List Declaration
  | .includes => []
  | .sysctl => d.sysctl.entries.map fun e ↦ s.setting e.1 e.2
  | .packages => d.packages.map fun i ↦ s.package i.target i.state
  | .files => d.files.map fun i ↦ s.file i.target i.state
  | .directories => d.directories.map fun i ↦ s.directory i.target i.state
  | .symlinks => d.symlinks.map fun l ↦ s.symlink l.toLinkLine
  | .services => d.services.map fun i ↦ s.service i.target i.state
  | .commands => d.commands.map fun x ↦ s.command x.value
  | .scripts => d.scripts.map fun x ↦ s.script x.value
  | .cronjobs => d.cronjobs.map fun j ↦ s.cronjob j.toCronLine

theorem items_of_kind {kind : ItemKind} {declare : Text → ItemState → Declaration} {is : List Item}
    (h : ∀ i ∈ is, i.kind = kind) : items kind declare is = .ok (is.map fun i ↦ declare i.target i.state) := by
  rw [items, mapM_eq_ok_iff, List.forall₂_map_right_iff, List.forall₂_same]
  exact fun i hi ↦ if_pos (h i hi)

/-- Where every item lies in the list of its kind, nothing stands in the way. -/
theorem declarations_of_inPlace (hd : d.InPlace) : s.declarations d c = .ok (s.declared d c) := by
  cases c with
  | packages => exact items_of_kind hd.packages
  | files => exact items_of_kind hd.files
  | directories => exact items_of_kind hd.directories
  | services => exact items_of_kind hd.services
  | _ => rfl

theorem wellFormed_of_mem_declared (hs : s.OneLine) (hd : d.Filed) :
    ∀ x ∈ s.declared d c, x.WellFormed := by
  cases c with
  | includes => nofun
  | sysctl =>
      exact List.forall_mem_map.mpr fun e he ↦
        s.wellFormed_setting (hd.sysctl e he).1 (hd.sysctl e he).2
  | packages => exact List.forall_mem_map.mpr fun i hi ↦ hs.package (hd.packages i hi).target i.state
  | files =>
      exact List.forall_mem_map.mpr fun i hi ↦ hs.file (hd.files i hi).target (hd.files i hi).state
  | directories =>
      exact List.forall_mem_map.mpr fun i hi ↦
        hs.directory (hd.directories i hi).target (hd.directories i hi).state
  | symlinks =>
      exact List.forall_mem_map.mpr fun l hl ↦
        hs.symlink (hd.symlinks l hl).linkPath (hd.symlinks l hl).targetPath
  | services =>
      exact List.forall_mem_map.mpr fun i hi ↦ s.wellFormed_service (hd.services i hi).target i.state
  | commands => exact List.forall_mem_map.mpr fun x hx ↦ s.wellFormed_command (hd.commands x hx)
  | scripts => exact List.forall_mem_map.mpr fun x hx ↦ s.wellFormed_script (hd.scripts x hx)
  | cronjobs =>
      exact List.forall_mem_map.mpr fun j hj ↦ hs.cronjob (hd.cronjobs j hj).command (hd.cronjobs j hj).schedule

end Setup

namespace Document

variable {d : Document} {s : Setup} {ids : StateIds} {c : Concern} {cs : List Concern}

/-- The ids that the entries of some concerns would like to have, concern by concern and entry by
entry. -/
def wantedIds (s : Setup) (d : Document) (cs : List Concern) : List Text :=
  cs.flatMap fun c ↦ (s.declared d c).map Declaration.wanted

/-- Whether a document has an entry about a concern. -/
def tells (d : Document) : Concern → Bool
  | .includes => !d.includes.isEmpty
  | .sysctl => !d.sysctl.isEmpty
  | .packages => !d.packages.isEmpty
  | .files => !d.files.isEmpty
  | .directories => !d.directories.isEmpty
  | .symlinks => !d.symlinks.isEmpty
  | .services => !d.services.isEmpty
  | .commands => !d.commands.isEmpty
  | .scripts => !d.scripts.isEmpty
  | .cronjobs => !d.cronjobs.isEmpty

theorem tells_eq (s : Setup) (d : Document) (hc : c ≠ .includes) :
    d.tells c = !(s.declared d c).isEmpty := by
  cases c with
  | includes => exact absurd rfl hc
  | _ => simp [tells, Setup.declared, Table.isEmpty]

/-! ## The stanzas of a concern -/

theorem rootLines_stanzas {ds : List Declaration} (hids : ids.Counted) (hds : ∀ x ∈ ds, x.WellFormed) :
    ((stanzas ids ds).1.map Stanza.text).flatMap rootLines =
        (ids.claimAll (ds.map (·.wanted))).1.map (· ++ [':']) ∧
      (stanzas ids ds).1.length = ds.length := by
  have hissued := (StateIds.claimAll_spec hids (ds.map (·.wanted))).1
  simp only [stanzas]
  generalize (ids.claimAll (ds.map (·.wanted))).1 = got at hissued ⊢
  induction ds generalizing got with
  | nil =>
      rw [List.map_nil, List.forall₂_nil_left_iff] at hissued
      subst hissued
      exact ⟨rfl, rfl⟩
  | cons x ds ih =>
      rw [List.map_cons, List.forall₂_cons_left_iff] at hissued
      obtain ⟨id, got, hid, hgot, rfl⟩ := hissued
      obtain ⟨hx, hds⟩ := List.forall_mem_cons.mp hds
      obtain ⟨hlines, hlength⟩ := ih hds got hgot
      refine ⟨?_, by rw [List.zipWith_cons_cons, List.length_cons, hlength, List.length_cons]⟩
      rw [List.zipWith_cons_cons, List.map_cons, List.flatMap_cons, hlines, List.map_cons,
        Stanza.rootLines_text (hid.isId hx.wanted) hx.function hx.params]
      rfl

/-- The texts about a concern, with the ids that are left when they are written. -/
theorem chunks_of_filed (hd : d.Filed) (hc : c ≠ .includes) :
    d.chunks s ids c =
      .ok ((stanzas ids (s.declared d c)).1.map Stanza.text, (ids.claimAll (wantedIds s d [c])).2) := by
  rw [chunks, if_neg hc, Setup.declarations_of_inPlace hd.inPlace, wantedIds, List.flatMap_singleton]
  rfl

/-- One concern after another: the blocks are those of the concerns that the document tells about,
and their lines at the margin are the ids, handed out in order. -/
theorem blocksOf_of_filed (hs : s.OneLine) (hd : d.Filed) (hids : ids.Counted) (hcs : .includes ∉ cs) :
    ∃ bs, d.blocksOf s ids cs = .ok bs ∧ bs.map Block.concern? = (cs.filter d.tells).map some ∧
      bs.flatMap (rootLines ∘ Block.text) = (ids.claimAll (wantedIds s d cs)).1.map (· ++ [':']) := by
  induction cs generalizing ids with
  | nil => exact ⟨[], rfl, rfl, rfl⟩
  | cons c cs ih =>
      rw [List.mem_cons, not_or] at hcs
      obtain ⟨hc, hcs⟩ := hcs
      obtain ⟨hlines, hlength⟩ := rootLines_stanzas hids fun x hx ↦
        Setup.wellFormed_of_mem_declared (c := c) hs hd x hx
      obtain ⟨bs, hbs, hconcerns, hroots⟩ := ih (StateIds.claimAll_counted hids (wantedIds s d [c])) hcs
      have hwanted : wantedIds s d (c :: cs) = wantedIds s d [c] ++ wantedIds s d cs := by
        simp [wantedIds]
      have hone : wantedIds s d [c] = (s.declared d c).map (·.wanted) := List.flatMap_singleton _ _
      rw [blocksOf, chunks_of_filed hd (Ne.symm hc)]
      simp only [hbs]
      rw [hwanted, StateIds.claimAll_append, List.map_append, ← hroots, List.filter_cons,
        tells_eq s d (Ne.symm hc)]
      cases hempty : (s.declared d c) with
      | nil =>
          rw [hempty] at hlines hone
          refine ⟨bs, rfl, hconcerns, ?_⟩
          rw [hone]
          rfl
      | cons x ds =>
          rw [hempty] at hlines hlength hone
          have hne : ((stanzas ids (x :: ds)).1.map Stanza.text).isEmpty = false := by
            rw [List.isEmpty_eq_false_iff, ← List.length_pos_iff, List.length_map, hlength]
            exact Nat.succ_pos _
          refine ⟨_, by rw [hne]; rfl, by rw [List.map_cons, hconcerns]; rfl, ?_⟩
          rw [List.flatMap_cons, Function.comp_apply, rootLines_joinWith_blank, List.flatMap_cons,
            Concern.rootLines_banner, List.nil_append, hlines, hone]

/-! ## The header and the includes -/

/-- The line that imports the lookup of the pins. -/
def lookupImport (s : Setup) : Text :=
  "\x7b% from \"" ++ s.statePath ++ '/' :: s.options.mapsDir ++ '/' :: lookupFile ++
    "\" import versions with context %\x7d"

theorem rootLines_lookupImport (hs : s.OneLine) : rootLines (lookupImport s) = [lookupImport s] := by
  have hline : IsLine (lookupImport s) :=
    .append (.append (.append (.append (by decide) hs.statePath)
      (isLine_cons.mpr ⟨by decide, hs.options.mapsDir⟩)) (by decide)) (by decide)
  exact rootLines_of_isLine hline

/-- Every line of a header is a comment, but for the import of the pins. -/
theorem rootLines_header (hs : s.OneLine) (hd : d.Filed) :
    rootLines (joinWith ['\n'] (d.headerLines s)) = if d.isPinned then [lookupImport s] else [] := by
  have hname : rootLines ("# ".toList ++ d.name) = [] :=
    rootLines_of_not_isRoot (.append (by decide) hd.name) rfl
  have hdescription :
      ((splitOn '\n' d.description).map fun l ↦ "#   ".toList ++ l).flatMap rootLines = [] := by
    rw [List.flatMap_map, List.flatMap_eq_nil_iff]
    exact fun l hl ↦ rootLines_of_not_isRoot (.append (by decide) (isLine_of_mem_splitOn hl)) rfl
  have himport : (d.importLines s).flatMap rootLines = if d.isPinned then [lookupImport s] else [] := by
    unfold importLines
    split
    · exact (List.append_nil _).trans (rootLines_lookupImport hs)
    · rfl
  have hhash : rootLines ['#'] = [] := rfl
  rw [rootLines_joinWith_newline, headerLines]
  simp only [List.cons_append, List.flatMap_cons, List.flatMap_append, hname, hdescription, himport, hhash,
    List.nil_append]

theorem rootLines_includeChunks (hd : d.Filed) :
    d.includeChunks.flatMap rootLines = if d.includes.isEmpty then [] else ["include:".toList] := by
  unfold includeChunks
  split
  · rfl
  · have hitems : (d.includes.map fun i ↦ "  - ".toList ++ i).flatMap rootLines = [] := by
      rw [List.flatMap_map, List.flatMap_eq_nil_iff]
      exact fun i hi ↦ rootLines_of_not_isRoot (.append (by decide) (hd.includes i hi)) rfl
    rw [List.flatMap_singleton, rootLines_joinWith_newline, List.flatMap_cons, hitems]
    rfl

/-- The blocks of a filed document's manifest, and the lines at the margin of each. -/
theorem blocks_of_filed {o : ManifestOptions} (ho : (d.setup o).OneLine) (hd : d.Filed) :
    ∃ bs ids, d.blocks o = .ok bs ∧
      bs.map Block.concern? = none :: (Concern.order.filter d.tells).map some ∧
      bs.flatMap (rootLines ∘ Block.text) =
        (if d.isPinned then [lookupImport (d.setup o)] else []) ++
          (if d.includes.isEmpty then [] else ["include:".toList]) ++ ids.map (· ++ [':']) ∧
      List.Forall₂ StateIds.IssuedFor (wantedIds (d.setup o) d Concern.order) ids ∧ ids.Nodup := by
  have hstates : .includes ∉ Concern.order.tail := by decide
  obtain ⟨bs, hbs, hconcerns, hroots⟩ := blocksOf_of_filed ho hd StateIds.counted_fresh hstates
  obtain ⟨hissued, hnodup, -⟩ := StateIds.claimAll_spec StateIds.counted_fresh
    (wantedIds (d.setup o) d Concern.order.tail)
  have horder : Concern.order = .includes :: Concern.order.tail := rfl
  have hincludes : d.chunks (d.setup o) .fresh .includes = .ok (d.includeChunks, .fresh) := rfl
  have hheader := rootLines_header ho hd
  have hchunks := rootLines_includeChunks hd
  unfold blocks
  rw [horder]
  simp only [blocksOf, hincludes, hbs]
  cases hempty : d.includes.isEmpty with
  | true =>
      have htells : d.tells .includes = false := by simp [tells, hempty]
      have hnone : d.includeChunks = [] := if_pos hempty
      refine ⟨_, _, by rw [hnone]; rfl, ?_, ?_, hissued, hnodup⟩
      · rw [List.map_cons, hconcerns, List.filter_cons, htells]
        rfl
      · rw [List.flatMap_cons, hroots, Function.comp_apply, hheader]
        simp
  | false =>
      have htells : d.tells .includes = true := by simp [tells, hempty]
      have hsome : d.includeChunks.isEmpty = false := by simp [includeChunks, hempty]
      rw [hempty] at hchunks
      refine ⟨_, _, by rw [hsome]; rfl, ?_, ?_, hissued, hnodup⟩
      · rw [List.map_cons, List.map_cons, hconcerns, List.filter_cons, htells]
        rfl
      · rw [List.flatMap_cons, List.flatMap_cons, hroots, Function.comp_apply, Function.comp_apply, hheader,
          rootLines_joinWith_blank, List.flatMap_cons, Concern.rootLines_banner, hchunks]
        simp

theorem rootLines_manifestText (texts : List Text) :
    rootLines (manifestText texts) = texts.flatMap rootLines := by
  rw [manifestText, rootLines_append_newline, rootLines_nil, List.append_nil, rootLines_joinWith_blank]

theorem isId_of_mem_wantedIds (hs : s.OneLine) (hd : d.Filed) : ∀ w ∈ wantedIds s d cs, IsId w := by
  intro w hw
  obtain ⟨c, -, hw⟩ := List.mem_flatMap.mp hw
  obtain ⟨x, hx, rfl⟩ := List.mem_map.mp hw
  exact (Setup.wellFormed_of_mem_declared hs hd x hx).wanted

theorem forall_isId_of_issued {ws got : List Text} (h : List.Forall₂ StateIds.IssuedFor ws got)
    (hw : ∀ w ∈ ws, IsId w) : ∀ id ∈ got, IsId id := by
  induction h with
  | nil => nofun
  | cons hid _ ih =>
      obtain ⟨hw, hws⟩ := List.forall_mem_cons.mp hw
      exact List.forall_mem_cons.mpr ⟨hid.isId hw, ih hws⟩

theorem oneLine_setup {o : ManifestOptions} (ho : o.OneLine) (hd : d.Filed) : (d.setup o).OneLine := by
  refine ⟨hd.name, hd.kind.append (isLine_cons.mpr ⟨by decide, isLine_joinWith (by decide) ?_⟩), ho⟩
  exact fun t ht ↦ hd.name.subset fun c hc ↦ (mem_of_mem_splitOn ht c hc).1

/-- A document read from a text always has a manifest. Its blocks are the header and the concerns
it tells about, in their order; and the lines at the margin are the import of the pins, the word for
the includes, and one id for each entry, in order, each made of letters, digits and underscores and
no two the same. -/
theorem manifest_of_ofText {t : Text} {o : ManifestOptions} (ho : o.OneLine) (h : ofText t = .ok d) :
    ∃ bs text ids, d.blocks o = .ok bs ∧ d.manifest o = .ok text ∧
      bs.map Block.concern? = none :: (Concern.order.filter d.tells).map some ∧
      rootLines text =
        (if d.isPinned then [lookupImport (d.setup o)] else []) ++
          (if d.includes.isEmpty then [] else ["include:".toList]) ++ ids.map (· ++ [':']) ∧
      List.Forall₂ StateIds.IssuedFor (wantedIds (d.setup o) d Concern.order) ids ∧
      (∀ id ∈ ids, IsId id) ∧ ids.Nodup := by
  have hd := filed_of_ofText h
  have hs := oneLine_setup ho hd
  obtain ⟨bs, ids, hbs, hconcerns, hroots, hissued, hnodup⟩ := blocks_of_filed hs hd
  refine ⟨bs, manifestText (bs.map Block.text), ids, hbs, by rw [manifest, hbs]; rfl, hconcerns, ?_, hissued,
    forall_isId_of_issued hissued (isId_of_mem_wantedIds hs hd), hnodup⟩
  rw [rootLines_manifestText, List.flatMap_map]
  exact hroots

/-- One package declared twice has two stanzas under two ids. -/
theorem manifest_of_package_twice :
    ∃ (d : Document) (bs : List Block) (ids : List Text),
      ofText "%rolename\nr\n\n%description\nd\n\n%packages\na\na\n" = .ok d ∧
      d.blocks ⟨"files", "maps", ⟨"root", "root"⟩, "root"⟩ = .ok bs ∧
      bs.map Block.concern? = [none, some .packages] ∧ ids.length = 2 ∧ ids.Nodup := by
  have ho : ManifestOptions.OneLine ⟨"files", "maps", ⟨"root", "root"⟩, "root"⟩ :=
    ⟨by decide, by decide, by decide, by decide, by decide⟩
  obtain ⟨bs, -, ids, hbs, -, hconcerns, -, hissued, -, hnodup⟩ := manifest_of_ofText
    (t := "%rolename\nr\n\n%description\nd\n\n%packages\na\na\n") ho rfl
  exact ⟨_, bs, ids, rfl, hbs, hconcerns, hissued.length_eq.symm, hnodup⟩

end Document

end Saltern
