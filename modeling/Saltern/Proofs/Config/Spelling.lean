import Mathlib.Data.List.Forall2
import Saltern.Config.Reading

/-!
# What a value spells

A settings value is read member by member, each by a reader for what the member must be. An object is read exactly
as the settings whose members its own members spell.
-/

namespace Saltern

theorem bind_eq_ok_iff {ε α β : Type} {r : Except ε α} {f : α → Except ε β} {b : β} :
    r >>= f = .ok b ↔ ∃ a, r = .ok a ∧ f a = .ok b := by
  cases r with
  | error e => simp [bind, Except.bind]
  | ok a => simp [bind, Except.bind]

namespace Json

/-- Whether a value is a text with something in it, and which. -/
def SpellsText (v : Json) (t : Text) : Prop := ∃ u : Units, u ≠ [] ∧ v = .str u ∧ Units.text u = t

/-- Whether a value is a list of texts with something in them, and which. -/
def SpellsNames (v : Json) (ts : List Text) : Prop := ∃ vs, v = .arr vs ∧ List.Forall₂ SpellsText vs ts

/-- Whether a value is a boolean, and which. -/
def SpellsFlag (v : Json) (b : Bool) : Prop := v = .bool b

/-- Whether a value is an object, and a reading of it gives something. -/
def SpellsPart {α : Type} (R : Json → α → Prop) (v : Json) (a : α) : Prop := (∃ ms, v = .obj ms) ∧ R v a

end Json

namespace Settings

open Json

variable {v w : Json} {n fullName : Text} {s : Settings} {α : Type} {read : Json → Except SettingsFault α}

/-! ## Single members -/

theorem part_eq_ok_iff {x : Option Json} {o : Option α} :
    part read x = .ok o ↔ Option.Rel (fun w a ↦ read w = .ok a) x o := by
  cases x with
  | none =>
      constructor
      · rintro ⟨⟩
        exact .none
      · rintro ⟨⟩
        rfl
  | some w =>
      rw [part]
      cases hw : read w with
      | error e =>
          refine iff_of_false nofun ?_
          rintro (h | -)
          rw [hw] at h
          cases h
      | ok a =>
          constructor
          · rintro ⟨⟩
            exact .some hw
          · rintro (h | -)
            rw [hw] at h
            cases h
            rfl

/-- Reads a text with something in it. -/
def readText (fullName : Text) (v : Json) : Except SettingsFault Text :=
  (nonemptyText? v).elim (.error (.emptyOrNoText fullName)) .ok

def readNames (v : Json) : Except SettingsFault (List Text) := (names? v).elim (.error .environmentsNoNames) .ok

def readFlag : Json → Except SettingsFault Bool
  | .bool b => .ok b
  | _ => .error .enabledNoBoolean

/-- Reads an object, by a reader of its members. -/
def readObject (n : Text) (read : Json → Except SettingsFault α) : Json → Except SettingsFault α
  | .obj ms => read (.obj ms)
  | _ => .error (.fieldNoObject n)

theorem textField_eq (v : Json) (n fullName : Text) :
    textField v n fullName = part (readText fullName) (v.member? n) := by
  unfold textField
  cases v.member? n with
  | none => rfl
  | some w => rcases w with _ | _ | _ | (_ | _) | _ | _ <;> rfl

theorem namesOfJson_eq (v : Json) : namesOfJson v = part readNames (v.member? "environments") := by
  unfold namesOfJson
  cases v.member? "environments" with
  | none => rfl
  | some w =>
      rw [part, readNames]
      dsimp only
      cases names? w <;> rfl

theorem formatOfJson_eq (v : Json) : formatOfJson v = do
    let enabled ← part readFlag (v.member? "enabled")
    return ⟨enabled⟩ := by
  unfold formatOfJson
  cases v.member? "enabled" with
  | none => rfl
  | some w => cases w <;> rfl

theorem objectField_bind_part (v : Json) (n : Text) (read : Json → Except SettingsFault α) :
    objectField v n >>= part read = part (readObject n read) (v.member? n) := by
  unfold objectField
  cases v.member? n with
  | none => rfl
  | some w => cases w <;> rfl

/-- Settings are read member by member, each by a reader of its own. -/
theorem ofObject_eq (v : Json) : ofObject v = do
    let sourceFile ← part (readText "sourceFile") (v.member? "sourceFile")
    let manifestFile ← part (readText "manifestFile") (v.member? "manifestFile")
    let readmeFile ← part (readText "readmeFile") (v.member? "readmeFile")
    let filesDir ← part (readText "filesDir") (v.member? "filesDir")
    let mapsDir ← part (readText "mapsDir") (v.member? "mapsDir")
    let cronUser ← part (readText "cronUser") (v.member? "cronUser")
    let owner ← part (readObject "owner" ownerOfJson) (v.member? "owner")
    let environments ← part (readObject "versionMap" environmentsOfJson) (v.member? "versionMap")
    let format ← part (readObject "format" formatOfJson) (v.member? "format")
    return ⟨sourceFile, manifestFile, readmeFile, filesDir, mapsDir, cronUser, owner, environments, format⟩ := by
  simp only [ofObject, textField_eq, ← objectField_bind_part, bind_assoc]

theorem nonemptyText?_eq_some_iff {t : Text} : nonemptyText? v = some t ↔ v.SpellsText t := by
  unfold nonemptyText? SpellsText
  split
  · next u r => simp
  · next hno =>
    refine iff_of_false nofun ?_
    rintro ⟨u, hu, rfl, -⟩
    obtain ⟨a, r, rfl⟩ := List.exists_cons_of_ne_nil hu
    exact hno a r rfl

theorem names?_eq_some_iff {ts : List Text} : names? v = some ts ↔ v.SpellsNames ts := by
  have hall : ∀ (vs : List Json) (ts : List Text),
      vs.mapM nonemptyText? = some ts ↔ List.Forall₂ SpellsText vs ts := by
    intro vs
    induction vs with
    | nil => simp [eq_comm]
    | cons w vs ih =>
        intro ts
        simp only [List.mapM_cons, Option.bind_eq_bind, Option.bind_eq_some_iff, nonemptyText?_eq_some_iff, ih,
          List.forall₂_cons_left_iff]
        exact ⟨fun ⟨t, ht, us, hus, h⟩ ↦ ⟨t, us, ht, hus, (Option.some.inj h).symm⟩,
          fun ⟨t, us, ht, hus, h⟩ ↦ ⟨t, ht, us, hus, congrArg some h.symm⟩⟩
  unfold names? SpellsNames
  split
  · next vs => simp [hall]
  · next hno =>
    refine iff_of_false nofun ?_
    rintro ⟨vs, rfl, -⟩
    exact hno vs rfl

theorem elim_eq_ok_iff {e : SettingsFault} {x : Option α} {a : α} :
    x.elim (.error e) .ok = (.ok a : Except SettingsFault α) ↔ x = some a := by
  cases x with
  | none => exact iff_of_false nofun nofun
  | some b => exact ⟨fun h ↦ congrArg some (Except.ok.inj h), fun h ↦ congrArg _ (Option.some.inj h)⟩

theorem readText_eq_ok_iff {t : Text} : readText fullName v = .ok t ↔ v.SpellsText t :=
  elim_eq_ok_iff.trans nonemptyText?_eq_some_iff

theorem readNames_eq_ok_iff {ts : List Text} : readNames v = .ok ts ↔ v.SpellsNames ts :=
  elim_eq_ok_iff.trans names?_eq_some_iff

theorem readFlag_eq_ok_iff {b : Bool} : readFlag v = .ok b ↔ v.SpellsFlag b := by
  unfold SpellsFlag
  cases v <;> simp [readFlag]

theorem readObject_eq_ok_iff {a : α} :
    readObject n read v = .ok a ↔ v.SpellsPart (fun w a ↦ read w = .ok a) a := by
  unfold SpellsPart
  cases v <;> simp [readObject]

/-! ## All members -/

/-- Whether a value spells settings of the owner. -/
structure SpellsOwner (v : Json) (o : OwnerSettings) : Prop where
  user : Option.Rel SpellsText (v.member? "user") o.user
  group : Option.Rel SpellsText (v.member? "group") o.group

/-- Whether a value spells settings of the environments. -/
structure SpellsEnvironments (v : Json) (e : EnvironmentSettings) : Prop where
  names : Option.Rel SpellsNames (v.member? "environments") e.names
  grain : Option.Rel SpellsText (v.member? "grain") e.grain
  fallback : Option.Rel SpellsText (v.member? "defaultEnvironment") e.fallback

/-- Whether a value spells settings of formatting. -/
def SpellsFormat (v : Json) (f : FormatSettings) : Prop := Option.Rel SpellsFlag (v.member? "enabled") f.enabled

/-- Whether a value spells settings: each member that is there has the shape of its field and is the one given. -/
structure Spelled (v : Json) (s : Settings) : Prop where
  sourceFile : Option.Rel SpellsText (v.member? "sourceFile") s.sourceFile
  manifestFile : Option.Rel SpellsText (v.member? "manifestFile") s.manifestFile
  readmeFile : Option.Rel SpellsText (v.member? "readmeFile") s.readmeFile
  filesDir : Option.Rel SpellsText (v.member? "filesDir") s.filesDir
  mapsDir : Option.Rel SpellsText (v.member? "mapsDir") s.mapsDir
  cronUser : Option.Rel SpellsText (v.member? "cronUser") s.cronUser
  owner : Option.Rel (SpellsPart SpellsOwner) (v.member? "owner") s.owner
  environments : Option.Rel (SpellsPart SpellsEnvironments) (v.member? "versionMap") s.environments
  format : Option.Rel (SpellsPart SpellsFormat) (v.member? "format") s.format

theorem ownerOfJson_eq_ok_iff {o : OwnerSettings} : ownerOfJson v = .ok o ↔ SpellsOwner v o := by
  simp only [ownerOfJson, textField_eq, bind_eq_ok_iff, part_eq_ok_iff, readText_eq_ok_iff]
  exact ⟨fun ⟨_, huser, _, hgroup, h⟩ ↦ Except.ok.inj h ▸ ⟨huser, hgroup⟩, fun h ↦ ⟨_, h.user, _, h.group, rfl⟩⟩

theorem environmentsOfJson_eq_ok_iff {e : EnvironmentSettings} :
    environmentsOfJson v = .ok e ↔ SpellsEnvironments v e := by
  simp only [environmentsOfJson, namesOfJson_eq, textField_eq, bind_eq_ok_iff, part_eq_ok_iff, readText_eq_ok_iff,
    readNames_eq_ok_iff]
  exact ⟨fun ⟨_, hnames, _, hgrain, _, hfallback, h⟩ ↦ Except.ok.inj h ▸ ⟨hnames, hgrain, hfallback⟩,
    fun h ↦ ⟨_, h.names, _, h.grain, _, h.fallback, rfl⟩⟩

theorem formatOfJson_eq_ok_iff {f : FormatSettings} : formatOfJson v = .ok f ↔ SpellsFormat v f := by
  simp only [formatOfJson_eq, bind_eq_ok_iff, part_eq_ok_iff, readFlag_eq_ok_iff]
  exact ⟨fun ⟨_, h, hf⟩ ↦ Except.ok.inj hf ▸ h, fun h ↦ ⟨_, h, rfl⟩⟩

theorem ofObject_eq_ok_iff : ofObject v = .ok s ↔ Spelled v s := by
  simp only [ofObject_eq, bind_eq_ok_iff, part_eq_ok_iff, readText_eq_ok_iff, readObject_eq_ok_iff,
    ownerOfJson_eq_ok_iff, environmentsOfJson_eq_ok_iff, formatOfJson_eq_ok_iff]
  constructor
  · rintro ⟨_, hsource, _, hmanifest, _, hreadme, _, hfiles, _, hmaps, _, hcron, _, howner, _, henvironments, _,
      hformat, ⟨⟩⟩
    exact ⟨hsource, hmanifest, hreadme, hfiles, hmaps, hcron, howner, henvironments, hformat⟩
  · rintro ⟨hsource, hmanifest, hreadme, hfiles, hmaps, hcron, howner, henvironments, hformat⟩
    exact ⟨_, hsource, _, hmanifest, _, hreadme, _, hfiles, _, hmaps, _, hcron, _, howner, _, henvironments, _,
      hformat, rfl⟩

/-- Exactly the objects are read that spell settings, and as the settings that they spell. -/
theorem ofJson_eq_ok_iff : ofJson v = .ok s ↔ (∃ ms, v = .obj ms) ∧ Spelled v s := by
  cases v with
  | obj ms =>
      rw [ofJson, ofObject_eq_ok_iff]
      exact ⟨fun h ↦ ⟨⟨ms, rfl⟩, h⟩, And.right⟩
  | null | bool | num | str | arr => simp [ofJson]

end Settings

end Saltern
