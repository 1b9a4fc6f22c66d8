import Saltern.Proofs.Config.Spelling

/-!
# The shape of settings

A value is read as settings exactly if it is an object whose known fields, as far as they are there, have their
shapes: an object, a text with something in it, a list of such texts, or a boolean. What else the objects hold makes
no difference, not even to the fault that is reported.
-/

namespace Saltern

theorem exists_rel_iff {α β : Type} {R : α → β → Prop} {x : Option α} :
    (∃ o, Option.Rel R x o) ↔ ∀ a, x = some a → ∃ b, R a b := by
  cases x with
  | none => exact iff_of_true ⟨none, .none⟩ nofun
  | some a =>
      simp only [Option.some.injEq, forall_eq']
      constructor
      · rintro ⟨_, h⟩
        cases h with
        | some h => exact ⟨_, h⟩
      · rintro ⟨b, hb⟩
        exact ⟨some b, .some hb⟩

namespace Json

/-- What a chain of member names leads to. -/
def at? : Json → List Text → Option Json
  | v, [] => some v
  | v, n :: ns => (v.member? n).bind fun w ↦ w.at? ns

theorem at?_singleton (v : Json) (n : Text) : v.at? [n] = v.member? n := Option.bind_fun_some _

theorem at?_pair (v : Json) (n m : Text) : v.at? [n, m] = (v.member? n).bind (·.member? m) :=
  congrArg _ (funext fun w ↦ w.at?_singleton m)

end Json

/-- What a field must be. -/
inductive Shape
  | object
  | text
  | names
  | flag
  deriving DecidableEq

namespace Shape

open Json

variable {v : Json}

/-- Whether a value has a shape. -/
def Admits : Shape → Json → Prop
  | .object, v => ∃ ms, v = .obj ms
  | .text, v => ∃ u, u ≠ [] ∧ v = .str u
  | .names, v => ∃ vs, v = .arr vs ∧ ∀ w ∈ vs, ∃ u, u ≠ [] ∧ w = .str u
  | .flag, v => ∃ b, v = .bool b

/-- What of a value matters to a field: of an object only that it is one. -/
def seen : Shape → Json → Json
  | .object, .obj _ => .obj []
  | _, v => v

theorem seen_of_ne_object {h : Shape} (hne : h ≠ object) : h.seen = id := by
  cases h with
  | object => exact absurd rfl hne
  | text | names | flag => rfl

theorem admits_object_iff : object.Admits v ↔ object.seen v = .obj [] := by
  cases v <;> simp [Admits, seen]

theorem admits_object_congr {w : Json} (h : object.seen v = object.seen w) :
    object.Admits v ↔ object.Admits w := by
  rw [admits_object_iff, admits_object_iff, h]

theorem exists_spellsText_iff : (∃ t, v.SpellsText t) ↔ text.Admits v :=
  ⟨fun ⟨_, u, hu, hv, _⟩ ↦ ⟨u, hu, hv⟩, fun ⟨u, hu, hv⟩ ↦ ⟨_, u, hu, hv, rfl⟩⟩

theorem exists_spellsNames_iff : (∃ ts, v.SpellsNames ts) ↔ names.Admits v := by
  have hall : ∀ vs : List Json, (∃ ts, List.Forall₂ SpellsText vs ts) ↔ ∀ w ∈ vs, text.Admits w := by
    intro vs
    induction vs with
    | nil => exact iff_of_true ⟨[], .nil⟩ nofun
    | cons w vs ih =>
        rw [List.forall_mem_cons, ← ih, ← exists_spellsText_iff]
        constructor
        · rintro ⟨_, _ | ⟨hw, hvs⟩⟩
          exact ⟨⟨_, hw⟩, _, hvs⟩
        · rintro ⟨⟨t, ht⟩, ts, hts⟩
          exact ⟨t :: ts, .cons ht hts⟩
  constructor
  · rintro ⟨ts, vs, rfl, hts⟩
    exact ⟨vs, rfl, (hall vs).mp ⟨ts, hts⟩⟩
  · rintro ⟨vs, rfl, hvs⟩
    obtain ⟨ts, hts⟩ := (hall vs).mpr hvs
    exact ⟨ts, vs, rfl, hts⟩

theorem exists_spellsFlag_iff : (∃ b, v.SpellsFlag b) ↔ flag.Admits v := Iff.rfl

end Shape

/-- A known field: the names that lead to it, and its shape. -/
structure Field where
  path : List Text
  shape : Shape
  deriving DecidableEq

/-- Whether a field, if a value has it, has its shape. -/
def Field.Fits (f : Field) (v : Json) : Prop := ∀ w, v.at? f.path = some w → f.shape.Admits w

namespace Settings

open Json

variable {v w v' w' : Json} {n fullName : Text} {s : Settings} {α : Type} {read : Json → Except SettingsFault α}

/-- The fields that settings may have. -/
def fields : List Field :=
  [⟨["sourceFile"], .text⟩, ⟨["manifestFile"], .text⟩, ⟨["readmeFile"], .text⟩, ⟨["filesDir"], .text⟩,
    ⟨["mapsDir"], .text⟩, ⟨["cronUser"], .text⟩,
    ⟨["owner"], .object⟩, ⟨["owner", "user"], .text⟩, ⟨["owner", "group"], .text⟩,
    ⟨["versionMap"], .object⟩, ⟨["versionMap", "environments"], .names⟩, ⟨["versionMap", "grain"], .text⟩,
    ⟨["versionMap", "defaultEnvironment"], .text⟩,
    ⟨["format"], .object⟩, ⟨["format", "enabled"], .flag⟩]

/-! ## Acceptance -/

theorem fits_singleton {h : Shape} : Field.Fits ⟨[n], h⟩ v ↔ ∀ w, v.member? n = some w → h.Admits w := by
  rw [Field.Fits, at?_singleton]

theorem fits_pair {m : Text} {h : Shape} :
    Field.Fits ⟨[n, m], h⟩ v ↔ ∀ x, v.member? n = some x → ∀ w, x.member? m = some w → h.Admits w := by
  simp only [Field.Fits, at?_pair, Option.bind_eq_some_iff]
  exact ⟨fun hv x hx w hw ↦ hv w ⟨x, hx, hw⟩, fun hv w ⟨x, hx, hw⟩ ↦ hv x hx w hw⟩

theorem exists_rel_spellsText_iff {x : Option Json} :
    (∃ o, Option.Rel SpellsText x o) ↔ ∀ w, x = some w → Shape.text.Admits w :=
  exists_rel_iff.trans (forall₂_congr fun _ _ ↦ Shape.exists_spellsText_iff)

theorem exists_spellsOwner_iff : (∃ o, SpellsOwner v o) ↔
    (∀ w, v.member? "user" = some w → Shape.text.Admits w) ∧
      ∀ w, v.member? "group" = some w → Shape.text.Admits w := by
  rw [← exists_rel_spellsText_iff, ← exists_rel_spellsText_iff]
  exact ⟨fun ⟨_, h⟩ ↦ ⟨⟨_, h.user⟩, _, h.group⟩, fun ⟨⟨_, huser⟩, _, hgroup⟩ ↦ ⟨⟨_, _⟩, huser, hgroup⟩⟩

theorem exists_spellsEnvironments_iff : (∃ e, SpellsEnvironments v e) ↔
    (∀ w, v.member? "environments" = some w → Shape.names.Admits w) ∧
      (∀ w, v.member? "grain" = some w → Shape.text.Admits w) ∧
      ∀ w, v.member? "defaultEnvironment" = some w → Shape.text.Admits w := by
  simp only [← Shape.exists_spellsNames_iff, ← exists_rel_iff, ← exists_rel_spellsText_iff]
  exact ⟨fun ⟨_, h⟩ ↦ ⟨⟨_, h.names⟩, ⟨_, h.grain⟩, _, h.fallback⟩,
    fun ⟨⟨_, hnames⟩, ⟨_, hgrain⟩, _, hfallback⟩ ↦ ⟨⟨_, _, _⟩, hnames, hgrain, hfallback⟩⟩

theorem exists_spellsFormat_iff :
    (∃ f, SpellsFormat v f) ↔ ∀ w, v.member? "enabled" = some w → Shape.flag.Admits w := by
  simp only [← Shape.exists_spellsFlag_iff, ← exists_rel_iff]
  exact ⟨fun ⟨_, h⟩ ↦ ⟨_, h⟩, fun ⟨_, h⟩ ↦ ⟨⟨_⟩, h⟩⟩

/-- A part is given properly where it is an object, and its members are given properly. -/
theorem exists_rel_spellsPart_iff {R : Json → α → Prop} {P : Json → Prop} {x : Option Json}
    (h : ∀ w, (∃ a, R w a) ↔ P w) :
    (∃ o, Option.Rel (SpellsPart R) x o) ↔ (∀ w, x = some w → Shape.object.Admits w) ∧ ∀ w, x = some w → P w := by
  rw [exists_rel_iff, ← forall_and]
  refine forall_congr' fun w ↦ ?_
  rw [← imp_and, ← h]
  exact imp_congr_right fun _ ↦ exists_and_left

theorem exists_spelled_iff : (∃ s, Spelled v s) ↔ ∀ f ∈ fields, f.Fits v := by
  -- No member depends on another, so they can be chosen one by one.
  have hparts : (∃ s, Spelled v s) ↔
      (∃ o, Option.Rel SpellsText (v.member? "sourceFile") o) ∧
      (∃ o, Option.Rel SpellsText (v.member? "manifestFile") o) ∧
      (∃ o, Option.Rel SpellsText (v.member? "readmeFile") o) ∧
      (∃ o, Option.Rel SpellsText (v.member? "filesDir") o) ∧
      (∃ o, Option.Rel SpellsText (v.member? "mapsDir") o) ∧
      (∃ o, Option.Rel SpellsText (v.member? "cronUser") o) ∧
      (∃ o, Option.Rel (SpellsPart SpellsOwner) (v.member? "owner") o) ∧
      (∃ o, Option.Rel (SpellsPart SpellsEnvironments) (v.member? "versionMap") o) ∧
      ∃ o, Option.Rel (SpellsPart SpellsFormat) (v.member? "format") o := by
    constructor
    · rintro ⟨s, h⟩
      exact ⟨⟨_, h.sourceFile⟩, ⟨_, h.manifestFile⟩, ⟨_, h.readmeFile⟩, ⟨_, h.filesDir⟩, ⟨_, h.mapsDir⟩,
        ⟨_, h.cronUser⟩, ⟨_, h.owner⟩, ⟨_, h.environments⟩, _, h.format⟩
    · rintro ⟨⟨source, hsource⟩, ⟨manifest, hmanifest⟩, ⟨readme, hreadme⟩, ⟨files, hfiles⟩, ⟨maps, hmaps⟩,
        ⟨cron, hcron⟩, ⟨owner, howner⟩, ⟨environments, henvironments⟩, format, hformat⟩
      exact ⟨⟨source, manifest, readme, files, maps, cron, owner, environments, format⟩, hsource, hmanifest, hreadme,
        hfiles, hmaps, hcron, howner, henvironments, hformat⟩
  rw [hparts]
  simp only [exists_rel_spellsText_iff, exists_rel_spellsPart_iff fun _ ↦ exists_spellsOwner_iff,
    exists_rel_spellsPart_iff fun _ ↦ exists_spellsEnvironments_iff,
    exists_rel_spellsPart_iff fun _ ↦ exists_spellsFormat_iff, fields, List.forall_mem_cons, fits_singleton,
    fits_pair, List.not_mem_nil, false_imp_iff, implies_true, and_true, and_assoc, imp_and, forall_and]

/-- Exactly the objects are read whose known fields have their shapes. -/
theorem exists_ofJson_eq_ok_iff :
    (∃ s, ofJson v = .ok s) ↔ (∃ ms, v = .obj ms) ∧ ∀ f ∈ fields, f.Fits v := by
  simp only [ofJson_eq_ok_iff, exists_and_left, exists_spelled_iff]

theorem exists_ofJson_eq_error_iff : (∃ e, ofJson v = .error e) ↔
    (∀ ms, v ≠ .obj ms) ∨ ∃ f ∈ fields, ∃ w, v.at? f.path = some w ∧ ¬ f.shape.Admits w := by
  have hnot : (∃ e, ofJson v = .error e) ↔ ¬ ∃ s, ofJson v = .ok s := by
    cases ofJson v <;> simp
  rw [hnot, exists_ofJson_eq_ok_iff, not_and_or, not_exists]
  refine or_congr_right ?_
  simp only [Field.Fits, not_forall, exists_prop]

/-- A member that is there with nothing in it counts as given. -/
example : ofJson (.obj [(Text.units "owner", .null)]) = .error (.fieldNoObject "owner") := rfl

/-! ## Unknown members -/

/-- Whether two values are the same as far as the known fields go. -/
structure SameFields (v v' : Json) : Prop where
  whole : Shape.object.seen v = Shape.object.seen v'
  given : ∀ f ∈ fields, (v.at? f.path).map f.shape.seen = (v'.at? f.path).map f.shape.seen

theorem readObject_of_admits (h : Shape.object.Admits w) : readObject n read w = read w := by
  obtain ⟨ms, rfl⟩ := h
  rfl

theorem readObject_of_not_admits (h : ¬ Shape.object.Admits w) :
    readObject n read w = .error (.fieldNoObject n) := by
  cases w with
  | obj ms => exact absurd ⟨ms, rfl⟩ h
  | null | bool | num | str | arr => rfl

/-- Two parts are read alike if both are objects that are read alike, or neither is an object. -/
theorem part_readObject_congr {x x' : Option Json} (hx : x.map Shape.object.seen = x'.map Shape.object.seen)
    (hread : ∀ w w', x = some w → x' = some w' → read w = read w') :
    part (readObject n read) x = part (readObject n read) x' := by
  cases x with
  | none => rw [Option.map_eq_none_iff.mp hx.symm]
  | some w =>
      obtain ⟨w', rfl, hw'⟩ := Option.map_eq_some_iff.mp hx.symm
      refine congrArg (Except.map some) ?_
      have hobject := Shape.admits_object_congr hw'
      by_cases h : Shape.object.Admits w
      · rw [readObject_of_admits h, readObject_of_admits (hobject.mpr h), hread w w' rfl rfl]
      · rw [readObject_of_not_admits h, readObject_of_not_admits (mt hobject.mp h)]

theorem ofJson_of_not_admits (h : ¬ Shape.object.Admits v) : ofJson v = .error .noObject := by
  cases v with
  | obj ms => exact absurd ⟨ms, rfl⟩ h
  | null | bool | num | str | arr => rfl

/-- What is no known field makes no difference: neither to the settings nor to the fault. -/
theorem ofJson_congr (h : SameFields v v') : ofJson v = ofJson v' := by
  have hobject := Shape.admits_object_congr h.whole
  by_cases hv : Shape.object.Admits v
  · obtain ⟨ms', rfl⟩ := hobject.mp hv
    obtain ⟨ms, rfl⟩ := hv
    have hgiven := h.given
    simp (disch := decide) only [fields, List.forall_mem_cons, at?_singleton, at?_pair, Shape.seen_of_ne_object,
      Option.map_id_apply] at hgiven
    obtain ⟨hsource, hmanifest, hreadme, hfiles, hmaps, hcron, howner, huser, hgroup, henvironments, hnames, hgrain,
      hfallback, hformat, henabled, -⟩ := hgiven
    have howner : part (readObject "owner" ownerOfJson) (member? (.obj ms) "owner") =
        part (readObject "owner" ownerOfJson) (member? (.obj ms') "owner") := by
      refine part_readObject_congr howner fun w w' hw hw' ↦ ?_
      rw [hw, hw', Option.bind_some, Option.bind_some] at huser hgroup
      simp only [ownerOfJson, textField_eq, huser, hgroup]
    have henvironments : part (readObject "versionMap" environmentsOfJson) (member? (.obj ms) "versionMap") =
        part (readObject "versionMap" environmentsOfJson) (member? (.obj ms') "versionMap") := by
      refine part_readObject_congr henvironments fun w w' hw hw' ↦ ?_
      rw [hw, hw', Option.bind_some, Option.bind_some] at hnames hgrain hfallback
      simp only [environmentsOfJson, namesOfJson_eq, textField_eq, hnames, hgrain, hfallback]
    have hformat : part (readObject "format" formatOfJson) (member? (.obj ms) "format") =
        part (readObject "format" formatOfJson) (member? (.obj ms') "format") := by
      refine part_readObject_congr hformat fun w w' hw hw' ↦ ?_
      rw [hw, hw', Option.bind_some, Option.bind_some] at henabled
      simp only [formatOfJson_eq, henabled]
    simp only [ofJson, ofObject_eq, hsource, hmanifest, hreadme, hfiles, hmaps, hcron, howner, henvironments, hformat]
  · rw [ofJson_of_not_admits hv, ofJson_of_not_admits (mt hobject.mpr hv)]

end Settings

end Saltern
