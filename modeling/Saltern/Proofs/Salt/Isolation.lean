import Mathlib.Logic.Function.Basic
import Saltern.Config.Basic
import Saltern.Proofs.Salt.IdKind
import Saltern.Proofs.Salt.Manifest

/-!
# Concerns on their own

All states of a manifest draw their ids from one registry, but the ids of two concerns never meet.
So what a manifest says about a concern is what it would say if there were no other, and entries added
behind those of a concern leave the texts of the earlier ones as they are.
-/

namespace Saltern

namespace Concern

/-- The word that the ids of a concern's states end in. -/
def idKind : Concern → Text
  | .includes => "include"
  | .sysctl => "sysctl"
  | .packages => "pkg"
  | .files => "file"
  | .directories => "dir"
  | .symlinks => "link"
  | .services => "svc"
  | .commands => "cmd"
  | .scripts => "script"
  | .cronjobs => "cronjob"

theorem isKind_idKind (c : Concern) : StateIds.IsKind c.idKind := by cases c <;> decide

theorem idKind_injective : Function.Injective idKind := by
  intro c c' h
  revert h
  cases c <;> cases c' <;> decide

/-- What stands between the pieces of a concern's part: the includes are lines of one list. -/
def gap : Concern → Text
  | .includes => ['\n']
  | _ => ['\n', '\n']

/-- The part of a manifest about a concern: none without pieces, else the pieces under the banner. -/
def blockOf (c : Concern) (ps : List Text) : List Block :=
  if ps.isEmpty then [] else [⟨some c, Text.joinWith ['\n', '\n'] [c.banner, Text.joinWith c.gap ps]⟩]

theorem filter_blockOf (c c' : Concern) (ps : List Text) :
    (c'.blockOf ps).filter (·.concern? = some c) = if c' = c then c'.blockOf ps else [] := by
  unfold blockOf
  split
  · rw [List.filter_nil, ite_self]
  · by_cases h : c' = c <;> simp [h]

end Concern

/-! ## What a manifest shows of an entry -/

namespace Item

/-- What a manifest shows of a package: not which version it is pinned to. -/
def shownPackage (i : Item) : Text × Bool × Bool := (i.target, i.state = .absent, i.value?.isSome)

/-- What a manifest shows of a file or directory whose mode, if none is given, is the default. -/
def shownMode (default : Text) (i : Item) : Text × Option Text :=
  (i.target, match i.state with | .present mode => some (mode.getD default) | .absent => none)

/-- What a manifest shows of a service. -/
def shownService (i : Item) : Text × Bool := (i.target, i.state = .absent)

end Item

/-- What a manifest shows of a link: of one that is to be gone, not where it points. -/
def LinkLine.shown (l : LinkLine) : Text × Option Text :=
  (l.linkPath, match l.presence with | .present => some l.targetPath | .absent => none)

/-- Whether the entries about a concern, as far as a manifest shows them, are the first ones of
another document's. -/
def Document.Leads (d d' : Document) : Concern → Prop
  | .includes => d.includes <+: d'.includes
  | .sysctl => d.sysctl.entries <+: d'.sysctl.entries
  | .packages => d.packages.map Item.shownPackage <+: d'.packages.map Item.shownPackage
  | .files => d.files.map (Item.shownMode "0644") <+: d'.files.map (Item.shownMode "0644")
  | .directories => d.directories.map (Item.shownMode "0755") <+: d'.directories.map (Item.shownMode "0755")
  | .symlinks => (d.symlinks.map fun l ↦ l.shown) <+: d'.symlinks.map fun l ↦ l.shown
  | .services => d.services.map Item.shownService <+: d'.services.map Item.shownService
  | .commands => d.commands.map (·.value) <+: d'.commands.map (·.value)
  | .scripts => d.scripts.map (·.value) <+: d'.scripts.map (·.value)
  | .cronjobs => (d.cronjobs.map fun j ↦ j.toCronLine) <+: d'.cronjobs.map fun j ↦ j.toCronLine

namespace Setup

variable {s : Setup} {d d' : Document} {c : Concern}

theorem package_eq_of_shown {i j : Item} (h : i.shownPackage = j.shownPackage) :
    s.package i.target i.state = s.package j.target j.state := by
  obtain ⟨_, target, state, _⟩ := i
  obtain ⟨_, target', state', _⟩ := j
  rcases state with (_ | _) | _ <;> rcases state' with (_ | _) | _ <;>
    simp_all [Item.shownPackage, Item.value?, package]

theorem file_eq_of_shown {i j : Item} (h : i.shownMode "0644" = j.shownMode "0644") :
    s.file i.target i.state = s.file j.target j.state := by
  obtain ⟨_, target, state, _⟩ := i
  obtain ⟨_, target', state', _⟩ := j
  rcases state with _ | _ <;> rcases state' with _ | _ <;> simp_all [Item.shownMode, file]

theorem directory_eq_of_shown {i j : Item} (h : i.shownMode "0755" = j.shownMode "0755") :
    s.directory i.target i.state = s.directory j.target j.state := by
  obtain ⟨_, target, state, _⟩ := i
  obtain ⟨_, target', state', _⟩ := j
  rcases state with _ | _ <;> rcases state' with _ | _ <;> simp_all [Item.shownMode, directory]

theorem service_eq_of_shown {i j : Item} (h : i.shownService = j.shownService) :
    s.service i.target i.state = s.service j.target j.state := by
  obtain ⟨_, target, state, _⟩ := i
  obtain ⟨_, target', state', _⟩ := j
  rcases state with _ | _ <;> rcases state' with _ | _ <;> simp_all [Item.shownService, service]

theorem symlink_eq_of_shown {l m : LinkLine} (h : l.shown = m.shown) : s.symlink l = s.symlink m := by
  obtain ⟨presence, path, target⟩ := l
  obtain ⟨presence', path', target'⟩ := m
  cases presence <;> cases presence' <;> simp_all [LinkLine.shown, symlink]

/-- A list that leads another as far as it is shown also leads it in what is declared. -/
theorem isPrefix_map_of_shown {α β : Type} {shown : α → β} {declare : α → Declaration} {xs ys : List α}
    (hdeclare : ∀ x y, shown x = shown y → declare x = declare y) (h : xs.map shown <+: ys.map shown) :
    xs.map declare <+: ys.map declare := by
  have : Nonempty Declaration := ⟨⟨[], [], []⟩⟩
  obtain ⟨e, rfl⟩ := (Function.factorsThrough_iff (f := shown) declare).mp fun {x y} hxy ↦ hdeclare x y hxy
  rw [← List.map_map, ← List.map_map]
  exact h.map e

/-- What is declared about a concern follows what is shown of its entries. -/
theorem isPrefix_declared (h : d.Leads d' c) : s.declared d c <+: s.declared d' c := by
  cases c with
  | includes => exact List.prefix_rfl
  | sysctl => exact h.map _
  | packages => exact isPrefix_map_of_shown (fun _ _ hij ↦ package_eq_of_shown hij) h
  | files => exact isPrefix_map_of_shown (fun _ _ hij ↦ file_eq_of_shown hij) h
  | directories => exact isPrefix_map_of_shown (fun _ _ hij ↦ directory_eq_of_shown hij) h
  | symlinks => exact isPrefix_map_of_shown (fun _ _ hlm ↦ symlink_eq_of_shown hlm) h
  | services => exact isPrefix_map_of_shown (fun _ _ hij ↦ service_eq_of_shown hij) h
  | commands => exact isPrefix_map_of_shown (fun _ _ hxy ↦ congrArg s.command hxy) h
  | scripts => exact isPrefix_map_of_shown (fun _ _ hxy ↦ congrArg s.script hxy) h
  | cronjobs => exact isPrefix_map_of_shown (fun _ _ hxy ↦ congrArg s.cronjob hxy) h

/-! ## Ids of a concern -/

theorem wants_wantedId (s : Setup) (thing : Text) {kind : Text} (hk : StateIds.IsKind kind) :
    StateIds.Wants kind (s.wantedId thing kind) :=
  StateIds.wants_append hk _

theorem wants_wantedActionId (s : Setup) (action thing : Text) {kind : Text} (hk : StateIds.IsKind kind) :
    StateIds.Wants kind (s.wantedActionId action thing kind) := by
  have hassoc : s.wantedActionId action thing kind =
      (action ++ '_' :: (slug s.name ++ '_' :: slug thing)) ++ '_' :: kind :=
    (List.append_assoc action ('_' :: (slug s.name ++ '_' :: slug thing)) ('_' :: kind)).symm
  rw [hassoc]
  exact StateIds.wants_append hk _

/-- Every state about a concern wants an id of the concern's kind. -/
theorem wants_of_mem_declared : ∀ x ∈ s.declared d c, StateIds.Wants c.idKind x.wanted := by
  have hk := c.isKind_idKind
  cases c with
  | includes => nofun
  | sysctl => exact List.forall_mem_map.mpr fun e _ ↦ s.wants_wantedId e.1 hk
  | packages =>
      refine List.forall_mem_map.mpr fun i _ ↦ ?_
      rcases i.state with (_ | _) | _
      exacts [s.wants_wantedId _ hk, s.wants_wantedId _ hk, s.wants_wantedActionId _ _ hk]
  | files =>
      refine List.forall_mem_map.mpr fun i _ ↦ ?_
      cases i.state
      exacts [s.wants_wantedId _ hk, s.wants_wantedActionId _ _ hk]
  | directories =>
      refine List.forall_mem_map.mpr fun i _ ↦ ?_
      cases i.state
      exacts [s.wants_wantedId _ hk, s.wants_wantedActionId _ _ hk]
  | symlinks =>
      refine List.forall_mem_map.mpr fun l _ ↦ ?_
      unfold symlink
      cases l.presence
      exacts [s.wants_wantedId _ hk, s.wants_wantedActionId _ _ hk]
  | services =>
      refine List.forall_mem_map.mpr fun i _ ↦ ?_
      cases i.state
      exacts [s.wants_wantedId _ hk, s.wants_wantedActionId _ _ hk]
  | commands => exact List.forall_mem_map.mpr fun _ _ ↦ s.wants_wantedActionId _ _ hk
  | scripts => exact List.forall_mem_map.mpr fun x _ ↦ s.wants_wantedActionId _ x.value hk
  | cronjobs => exact List.forall_mem_map.mpr fun j _ ↦ s.wants_wantedId j.command hk

end Setup

namespace Document

variable {d d' : Document} {s : Setup} {ids ids' : StateIds} {c : Concern} {cs : List Concern}

/-! ## The pieces of a concern's part -/

/-- The states about a concern with the ids they get where there is no other concern. -/
def ownStanzas (s : Setup) (d : Document) (c : Concern) : List Stanza :=
  (stanzas .fresh (s.declared d c)).1

/-- The texts that a concern's part is made of: its stanzas, or the lines of the list of includes. -/
def pieces (s : Setup) (d : Document) (c : Concern) : List Text :=
  if c = .includes then
    if d.includes.isEmpty then [] else "include:" :: d.includes.map fun i ↦ "  - " ++ i
  else (d.ownStanzas s c).map Stanza.text

/-- Only what was handed out for a concern's own kind shows in its states. -/
theorem stanzas_eq_ownStanzas (h : StateIds.AgreeOn c.idKind ids .fresh) :
    (stanzas ids (s.declared d c)).1 = d.ownStanzas s c := by
  have hwanted : ∀ w ∈ (s.declared d c).map (·.wanted), StateIds.Wants c.idKind w :=
    List.forall_mem_map.mpr Setup.wants_of_mem_declared
  simp only [ownStanzas, stanzas, h.claimAll hwanted]

/-- The texts about a concern put under its banner, and what that leaves to the other kinds. -/
theorem exists_chunks (hd : d.InPlace) (h : StateIds.AgreeOn c.idKind ids .fresh) :
    ∃ texts ids', d.chunks s ids c = .ok (texts, ids') ∧
      (if texts.isEmpty then [] else [⟨some c, Text.joinWith ['\n', '\n'] (c.banner :: texts)⟩]) =
        c.blockOf (d.pieces s c) ∧
      ∀ c', c' ≠ c → StateIds.AgreeOn c'.idKind ids' ids := by
  by_cases hc : c = .includes
  · subst hc
    refine ⟨d.includeChunks, ids, rfl, ?_, fun c' _ ↦ .refl _ ids⟩
    rw [Concern.blockOf, pieces, if_pos rfl, includeChunks]
    split
    · rfl
    · rfl
  · refine ⟨(d.ownStanzas s c).map Stanza.text, (stanzas ids (s.declared d c)).2, ?_, ?_, fun c' hne ↦ ?_⟩
    · rw [chunks, if_neg hc, Setup.declarations_of_inPlace hd, ← stanzas_eq_ownStanzas h]
    · have hgap : c.gap = ['\n', '\n'] := by
        cases c with
        | includes => exact absurd rfl hc
        | _ => rfl
      rw [Concern.blockOf, pieces, if_neg hc, hgap]
      cases (d.ownStanzas s c).map Stanza.text with
      | nil => rfl
      | cons t ts => rfl
    · exact StateIds.agreeOn_claimAll (List.forall_mem_map.mpr Setup.wants_of_mem_declared)
        fun heq ↦ hne (Concern.idKind_injective heq).symm

/-- Each concern's part is made of its own pieces, whatever stands before it. -/
theorem blocksOf_eq (hd : d.InPlace) (hcs : cs.Nodup)
    (h : ∀ c ∈ cs, StateIds.AgreeOn c.idKind ids .fresh) :
    d.blocksOf s ids cs = .ok (cs.flatMap fun c ↦ c.blockOf (d.pieces s c)) := by
  induction cs generalizing ids with
  | nil => rfl
  | cons c cs ih =>
      obtain ⟨hc, hcs⟩ := List.nodup_cons.mp hcs
      obtain ⟨hown, hothers⟩ := List.forall_mem_cons.mp h
      obtain ⟨texts, ids', hchunks, hblock, hafter⟩ := exists_chunks (s := s) hd hown
      have hrest : ∀ c' ∈ cs, StateIds.AgreeOn c'.idKind ids' .fresh := fun c' hc' ↦
        (hafter c' fun heq ↦ hc (heq ▸ hc')).trans (hothers c' hc')
      rw [blocksOf, hchunks]
      simp only [ih hcs hrest]
      rw [List.flatMap_cons, ← hblock]
      split
      · rfl
      · rfl

/-- A manifest is the header and, concern by concern, what each would be on its own. -/
theorem blocks_eq {o : ManifestOptions} (hd : d.InPlace) :
    d.blocks o = .ok (⟨none, Text.joinWith ['\n'] (d.headerLines (d.setup o))⟩ ::
      Concern.order.flatMap fun c ↦ c.blockOf (d.pieces (d.setup o) c)) := by
  have horder : Concern.order.Nodup := by decide
  rw [blocks]
  simp only [blocksOf_eq hd horder fun c _ ↦ StateIds.AgreeOn.refl c.idKind .fresh]

theorem filter_blocks (f : Concern → List Text) (c : Concern) :
    (Concern.order.flatMap fun c' ↦ c'.blockOf (f c')).filter (·.concern? = some c) = c.blockOf (f c) := by
  rw [List.filter_flatMap]
  simp only [Concern.filter_blockOf]
  cases c <;> simp [Concern.order]

/-! ## More entries -/

theorem stanzas_append (ids : StateIds) (xs ys : List Declaration) :
    (stanzas ids xs).1 <+: (stanzas ids (xs ++ ys)).1 := by
  have hlength := ids.length_claimAll (xs.map (·.wanted))
  simp only [stanzas]
  rw [List.map_append, StateIds.claimAll_append, List.zipWith_append (by simpa using hlength)]
  exact List.prefix_append _ _

/-- Entries behind those of a concern leave the states of the earlier ones as they are. -/
theorem isPrefix_ownStanzas (h : d.Leads d' c) : d.ownStanzas s c <+: d'.ownStanzas s c := by
  obtain ⟨more, hmore⟩ := Setup.isPrefix_declared (s := s) h
  rw [ownStanzas, ownStanzas, ← hmore]
  exact stanzas_append .fresh _ more

theorem isPrefix_pieces (h : d.Leads d' c) : d.pieces s c <+: d'.pieces s c := by
  unfold pieces
  split
  · next hc =>
    subst hc
    split
    · exact List.nil_prefix
    · next hsome =>
      have hsome' : ¬ d'.includes.isEmpty = true := fun hnil ↦
        hsome (List.isEmpty_iff.mpr (List.prefix_nil.mp (List.isEmpty_iff.mp hnil ▸ h)))
      rw [if_neg hsome']
      exact List.prefix_cons_inj _ |>.mpr (h.map _)
  · exact (isPrefix_ownStanzas h).map _

/-- Whatever two documents of one kind and name say otherwise: where the entries about a concern are the
first ones of the other's, its states are the first ones of the other's, text for text and under the
same ids. -/
theorem blocks_isolated {o : ManifestOptions} (hd : d.InPlace) (hd' : d'.InPlace) (hkind : d.kind = d'.kind)
    (hname : d.name = d'.name) (h : d.Leads d' c) :
    ∃ bs bs', d.blocks o = .ok bs ∧ d'.blocks o = .ok bs' ∧
      bs.filter (·.concern? = some c) = c.blockOf (d.pieces (d.setup o) c) ∧
      bs'.filter (·.concern? = some c) = c.blockOf (d'.pieces (d'.setup o) c) ∧
      d.ownStanzas (d.setup o) c <+: d'.ownStanzas (d'.setup o) c ∧
      d.pieces (d.setup o) c <+: d'.pieces (d'.setup o) c := by
  have hsetup : d.setup o = d'.setup o := by rw [setup, setup, hkind, hname]
  refine ⟨_, _, blocks_eq hd, blocks_eq hd', ?_, ?_, ?_, ?_⟩
  · exact (List.filter_cons_of_neg (by simp)).trans (filter_blocks _ c)
  · exact (List.filter_cons_of_neg (by simp)).trans (filter_blocks _ c)
  · rw [hsetup]
    exact isPrefix_ownStanzas h
  · rw [hsetup]
    exact isPrefix_pieces h

/-- A setting and a command that are called like packages, and a package behind, leave the states of the
others alone. -/
theorem blocks_isolated_packages :
    ∃ (d d' : Document) (bs bs' : List Block),
      d.packages = [⟨.package, "nginx", .present (some "1"), 8⟩, ⟨.package, "nginx", .present none, 9⟩] ∧
      d'.packages = [⟨.package, "nginx", .present (some "2"), 11⟩, ⟨.package, "nginx", .present none, 12⟩,
        ⟨.package, "vim", .absent, 13⟩] ∧
      d'.sysctl.entries = [("nginx.pkg".toList, "1".toList)] ∧ d'.commands = [⟨"pkg_2", 16⟩] ∧
      d.blocks Config.default.manifestOptions = .ok bs ∧ d'.blocks Config.default.manifestOptions = .ok bs' ∧
      (d.ownStanzas (d.setup Config.default.manifestOptions) .packages).map Stanza.id =
        ["r_nginx_pkg".toList, "r_nginx_pkg_2".toList] ∧
      bs'.filter (·.concern? = some .packages) =
        Concern.packages.blockOf (d'.pieces (d'.setup Config.default.manifestOptions) .packages) ∧
      d.pieces (d.setup Config.default.manifestOptions) .packages <+:
        d'.pieces (d'.setup Config.default.manifestOptions) .packages := by
  let d := gather .role "r" "d"
    [.packages [⟨.package, "nginx", .present (some "1"), 8⟩, ⟨.package, "nginx", .present none, 9⟩]]
  let d' := gather .role "r" "e"
    [.sysctl [⟨"nginx.pkg", "1"⟩],
      .packages [⟨.package, "nginx", .present (some "2"), 11⟩, ⟨.package, "nginx", .present none, 12⟩,
        ⟨.package, "vim", .absent, 13⟩],
      .commands [⟨"pkg_2", 16⟩]]
  have hd : d.InPlace := ⟨by decide, by decide, by decide, by decide⟩
  have hd' : d'.InPlace := ⟨by decide, by decide, by decide, by decide⟩
  have hleads : d.Leads d' .packages := by
    change d.packages.map Item.shownPackage <+: d'.packages.map Item.shownPackage
    decide
  obtain ⟨bs, bs', hbs, hbs', -, hpackages, -, hpieces⟩ :=
    blocks_isolated (o := Config.default.manifestOptions) hd hd' rfl rfl hleads
  exact ⟨d, d', bs, bs', rfl, rfl, rfl, rfl, hbs, hbs', by decide +kernel, hpackages, hpieces⟩

end Document

end Saltern
