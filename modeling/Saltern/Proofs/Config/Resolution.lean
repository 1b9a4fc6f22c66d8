import Saltern.Proofs.Config.Shape
import Saltern.Proofs.Text.Units

/-!
# Defaults

What settings come to is spelled by a value again. Each of its fields is the one that is given, or else the
default, whatever the other fields are, and what that value comes to is itself.
-/

namespace Saltern

open Json

/-- A value with its strings, and the strings that it lists, as the texts that they spell. -/
def Json.kept : Json → Json
  | .str u => .str u.text.units
  | .arr vs => .arr (vs.map keptItem)
  | v => v
where
  keptItem : Json → Json
    | .str u => .str u.text.units
    | v => v

namespace Config

/-- The value that spells a configuration. -/
def json (c : Config) : Json :=
  .obj
    [(Text.units "sourceFile", .str c.sourceFile.units), (Text.units "manifestFile", .str c.manifestFile.units),
      (Text.units "readmeFile", .str c.readmeFile.units), (Text.units "filesDir", .str c.filesDir.units),
      (Text.units "mapsDir", .str c.mapsDir.units),
      (Text.units "owner", .obj
        [(Text.units "user", .str c.owner.user.units), (Text.units "group", .str c.owner.group.units)]),
      (Text.units "cronUser", .str c.cronUser.units),
      (Text.units "versionMap", .obj
        [(Text.units "environments", .arr (c.environments.names.map fun t ↦ .str t.units)),
          (Text.units "grain", .str c.environments.grain.units),
          (Text.units "defaultEnvironment", .str c.environments.fallback.units)]),
      (Text.units "format", .obj [(Text.units "enabled", .bool c.formatEnabled)])]

/-- The texts of a configuration. -/
def texts (c : Config) : List Text :=
  [c.sourceFile, c.manifestFile, c.readmeFile, c.filesDir, c.mapsDir, c.owner.user, c.owner.group, c.cronUser,
    c.environments.grain, c.environments.fallback] ++ c.environments.names

/-- The settings that leave nothing of a configuration open. -/
def settings (c : Config) : Settings where
  sourceFile := c.sourceFile
  manifestFile := c.manifestFile
  readmeFile := c.readmeFile
  filesDir := c.filesDir
  mapsDir := c.mapsDir
  cronUser := c.cronUser
  owner := some ⟨c.owner.user, c.owner.group⟩
  environments := some ⟨c.environments.names, c.environments.grain, c.environments.fallback⟩
  format := some ⟨c.formatEnabled⟩

@[simp] theorem resolve_settings (c : Config) : c.settings.resolve = c := rfl

end Config

namespace Settings

variable {v : Json} {s : Settings} {α β : Type} {x : Option Json}

/-- What a field comes to: the value given for it, or else the default. -/
def settled? (v : Json) (path : List Text) : Option Json :=
  ((v.at? path).map Json.kept).or (Config.default.json.at? path)

/-! ## Single fields -/

theorem rel_bind {R : Json → α → Prop} {Q : Json → β → Prop} {o : Option α} {n : Text} {f : α → Option β}
    (h : Option.Rel (SpellsPart R) x o) (hf : ∀ w a, R w a → Option.Rel Q (w.member? n) (f a)) :
    Option.Rel Q (x.bind (·.member? n)) (o.bind f) := by
  cases h with
  | none => exact .none
  | some h => exact hf _ _ h.2

/-- A field that is read as something comes to what spells it again. -/
theorem some_getD_eq {R : Json → α → Prop} {o : Option α} {back : α → Json} (h : Option.Rel R x o)
    (hback : ∀ w a, R w a → w.kept = back a) (d : α) :
    some (back (o.getD d)) = (x.map Json.kept).or (some (back d)) := by
  cases h with
  | none => rfl
  | some h => exact congrArg some (hback _ _ h).symm

theorem kept_of_spellsText {t : Text} (h : v.SpellsText t) : v.kept = .str t.units := by
  obtain ⟨u, -, rfl, rfl⟩ := h
  rfl

theorem kept_of_spellsNames {ts : List Text} (h : v.SpellsNames ts) :
    v.kept = .arr (ts.map fun t ↦ .str t.units) := by
  obtain ⟨vs, rfl, h⟩ := h
  refine congrArg Json.arr ?_
  induction h with
  | nil => rfl
  | cons ht _ ih =>
      obtain ⟨u, -, rfl, rfl⟩ := ht
      exact congrArg (_ :: ·) ih

theorem kept_of_spellsFlag {b : Bool} (h : v.SpellsFlag b) : v.kept = .bool b := by
  subst h
  rfl

theorem ne_nil_of_spellsText {t : Text} (h : v.SpellsText t) : t ≠ [] := by
  obtain ⟨u, hu, -, rfl⟩ := h
  exact Units.text_ne_nil hu

theorem ne_nil_of_spellsNames {ts : List Text} (h : v.SpellsNames ts) : ∀ t ∈ ts, t ≠ [] := by
  obtain ⟨vs, -, h⟩ := h
  induction h with
  | nil => exact nofun
  | cons ht _ ih => exact List.forall_mem_cons.mpr ⟨ne_nil_of_spellsText ht, ih⟩

theorem spellsText_str {t : Text} (ht : t ≠ []) : SpellsText (.str t.units) t :=
  ⟨t.units, Units.units_ne_nil ht, rfl, Units.text_units t⟩

theorem spellsNames_arr {ts : List Text} (hts : ∀ t ∈ ts, t ≠ []) :
    SpellsNames (.arr (ts.map fun t ↦ .str t.units)) ts := by
  refine ⟨_, rfl, ?_⟩
  induction ts with
  | nil => exact .nil
  | cons t ts ih =>
      rw [List.forall_mem_cons] at hts
      exact .cons (spellsText_str hts.1) (ih hts.2)

/-- What holds of the default, and of all that a field can be read as, holds of what the field comes to. -/
theorem getD_of_rel {R : Json → α → Prop} {P : α → Prop} {o : Option α} {d : α} (h : Option.Rel R x o)
    (hd : P d) (hP : ∀ w a, R w a → P a) : P (o.getD d) := by
  cases h with
  | none => exact hd
  | some h => exact hP _ _ h

/-! ## All fields -/

namespace Spelled

variable (h : Spelled v s)

include h

theorem user : Option.Rel SpellsText ((v.member? "owner").bind (·.member? "user")) (s.owner.bind (·.user)) :=
  rel_bind h.owner fun _ _ ↦ SpellsOwner.user

theorem group : Option.Rel SpellsText ((v.member? "owner").bind (·.member? "group")) (s.owner.bind (·.group)) :=
  rel_bind h.owner fun _ _ ↦ SpellsOwner.group

theorem names : Option.Rel SpellsNames ((v.member? "versionMap").bind (·.member? "environments"))
    (s.environments.bind (·.names)) :=
  rel_bind h.environments fun _ _ ↦ SpellsEnvironments.names

theorem grain : Option.Rel SpellsText ((v.member? "versionMap").bind (·.member? "grain"))
    (s.environments.bind (·.grain)) :=
  rel_bind h.environments fun _ _ ↦ SpellsEnvironments.grain

theorem fallback : Option.Rel SpellsText ((v.member? "versionMap").bind (·.member? "defaultEnvironment"))
    (s.environments.bind (·.fallback)) :=
  rel_bind h.environments fun _ _ ↦ SpellsEnvironments.fallback

theorem enabled : Option.Rel SpellsFlag ((v.member? "format").bind (·.member? "enabled"))
    (s.format.bind (·.enabled)) :=
  rel_bind h.format fun _ _ h ↦ h

theorem ne_nil_of_mem_texts : ∀ t ∈ s.resolve.texts, t ≠ [] := by
  have htext {x : Option Json} {o : Option Text} {d : Text} (ho : Option.Rel SpellsText x o) (hd : d ≠ []) :
      o.getD d ≠ [] := getD_of_rel (P := (· ≠ [])) ho hd fun _ _ ↦ ne_nil_of_spellsText
  simp only [Config.texts, List.forall_mem_append, List.forall_mem_cons]
  refine ⟨⟨htext h.sourceFile ?_, htext h.manifestFile ?_, htext h.readmeFile ?_, htext h.filesDir ?_,
    htext h.mapsDir ?_, htext h.user ?_, htext h.group ?_, htext h.cronUser ?_, htext h.grain ?_,
    htext h.fallback ?_, nofun⟩, getD_of_rel h.names ?_ fun _ _ ↦ ne_nil_of_spellsNames⟩ <;> decide

/-- Each field comes to what is given for it, or else to its default. -/
theorem at?_json_resolve :
    ∀ f ∈ fields, f.shape ≠ .object → s.resolve.json.at? f.path = settled? v f.path := by
  have htext {x : Option Json} {o : Option Text} (ho : Option.Rel SpellsText x o) (d : Text) :
      some (.str (o.getD d).units) = (x.map Json.kept).or (some (.str d.units)) :=
    some_getD_eq ho (fun _ _ ↦ kept_of_spellsText) d
  simp only [fields, settled?, List.forall_mem_cons, at?_singleton, at?_pair, List.not_mem_nil, false_imp_iff,
    implies_true, and_true]
  refine ⟨fun _ ↦ htext h.sourceFile _, fun _ ↦ htext h.manifestFile _, fun _ ↦ htext h.readmeFile _,
    fun _ ↦ htext h.filesDir _, fun _ ↦ htext h.mapsDir _, fun _ ↦ htext h.cronUser _,
    fun hleaf ↦ absurd rfl hleaf, fun _ ↦ htext h.user _, fun _ ↦ htext h.group _,
    fun hleaf ↦ absurd rfl hleaf, fun _ ↦ some_getD_eq h.names (fun _ _ ↦ kept_of_spellsNames) _,
    fun _ ↦ htext h.grain _, fun _ ↦ htext h.fallback _,
    fun hleaf ↦ absurd rfl hleaf, fun _ ↦ some_getD_eq h.enabled (fun _ _ ↦ kept_of_spellsFlag) _⟩

end Spelled

/-- A configuration without empty texts is spelled by its value. -/
theorem ofJson_json {c : Config} (hc : ∀ t ∈ c.texts, t ≠ []) : ofJson c.json = .ok c.settings := by
  simp only [Config.texts, List.forall_mem_append, List.forall_mem_cons, List.not_mem_nil, false_imp_iff,
    implies_true, and_true] at hc
  obtain ⟨⟨hsource, hmanifest, hreadme, hfiles, hmaps, huser, hgroup, hcron, hgrain, hfallback⟩, hnames⟩ := hc
  refine ofJson_eq_ok_iff.mpr ⟨⟨_, rfl⟩, ?_⟩
  exact {
    sourceFile := .some (spellsText_str hsource)
    manifestFile := .some (spellsText_str hmanifest)
    readmeFile := .some (spellsText_str hreadme)
    filesDir := .some (spellsText_str hfiles)
    mapsDir := .some (spellsText_str hmaps)
    cronUser := .some (spellsText_str hcron)
    owner := .some ⟨⟨_, rfl⟩, .some (spellsText_str huser), .some (spellsText_str hgroup)⟩
    environments := .some ⟨⟨_, rfl⟩, .some (spellsNames_arr hnames), .some (spellsText_str hgrain),
      .some (spellsText_str hfallback)⟩
    format := .some ⟨⟨_, rfl⟩, .some rfl⟩ }

/-- A value is refused exactly where it is no object or a known field that it gives has not its shape, and unknown
members change nothing. What the settings that it gives come to has no empty texts, has in each field what is given
for it or else the default, and comes to itself. -/
theorem resolution_fieldwise (v : Json) :
    ((∃ e, ofJson v = .error e) ↔
      (∀ ms, v ≠ .obj ms) ∨ ∃ f ∈ fields, ∃ w, v.at? f.path = some w ∧ ¬ f.shape.Admits w) ∧
    (∀ v', SameFields v v' → ofJson v' = ofJson v) ∧
    ∀ s, ofJson v = .ok s →
      (∀ t ∈ s.resolve.texts, t ≠ []) ∧
      (∀ f ∈ fields, f.shape ≠ .object → s.resolve.json.at? f.path = settled? v f.path) ∧
      ∃ s', ofJson s.resolve.json = .ok s' ∧ s'.resolve = s.resolve := by
  refine ⟨exists_ofJson_eq_error_iff, fun v' h ↦ (ofJson_congr h).symm, fun s hs ↦ ?_⟩
  have h := (ofJson_eq_ok_iff.mp hs).2
  exact ⟨h.ne_nil_of_mem_texts, h.at?_json_resolve, _, ofJson_json h.ne_nil_of_mem_texts, Config.resolve_settings _⟩

/-- Of an owner without a group and a colour, the user is kept, the group is the default, and the colour makes no
difference; an owner that is no object is refused. -/
theorem resolution_fieldwise_owner :
    let owner : Units × Json := (Text.units "owner", .obj [(Text.units "user", .str (Text.units "salt"))])
    let colour : Units × Json := (Text.units "colour", .null)
    (∃ e, ofJson (.obj [(Text.units "owner", .null), colour]) = .error e) ∧
      ofJson (.obj [owner]) = ofJson (.obj [colour, owner]) ∧
      ∃ s, ofJson (.obj [colour, owner]) = .ok s ∧ (∀ t ∈ s.resolve.texts, t ≠ []) ∧
        s.resolve.json.at? ["owner", "user"] = some (.str (Text.units "salt")) ∧
        s.resolve.json.at? ["owner", "group"] = some (.str (Text.units "root")) ∧
        ∃ s', ofJson s.resolve.json = .ok s' ∧ s'.resolve = s.resolve := by
  intro owner colour
  obtain ⟨-, hcongr, hok⟩ := resolution_fieldwise (.obj [colour, owner])
  obtain ⟨htexts, hsettled, hagain⟩ := hok { none with owner := some ⟨some "salt", .none⟩ } rfl
  refine ⟨(resolution_fieldwise _).1.mpr (.inr ⟨⟨["owner"], .object⟩, by decide, .null, rfl, ?_⟩),
    hcongr _ ⟨rfl, ?_⟩, _, rfl, htexts, ?_, ?_, hagain⟩
  · rintro ⟨ms, hnull⟩
    cases hnull
  · simp only [fields, List.forall_mem_cons, List.not_mem_nil, false_imp_iff, implies_true, and_true]
    exact ⟨rfl, rfl, rfl, rfl, rfl, rfl, rfl, rfl, rfl, rfl, rfl, rfl, rfl, rfl, rfl⟩
  · exact hsettled ⟨["owner", "user"], .text⟩ (by decide) (by decide)
  · exact hsettled ⟨["owner", "group"], .text⟩ (by decide) (by decide)

end Settings

end Saltern
