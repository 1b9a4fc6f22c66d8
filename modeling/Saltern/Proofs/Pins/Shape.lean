import Saltern.Proofs.Json.One
import Saltern.Proofs.Pins.Store

/-!
# The shape of a store's file

Exactly the objects of version one are read whose entries are an object of strings and whose overrides, if
there are any, are an object of such objects.
-/

namespace Saltern

/-- A list is traversed where each element has a form that tells its result. -/
theorem mapM_eq_some_iff {α β γ : Type} {f : α → Option β} {g : γ → α} {h : γ → β} {as : List α} {bs : List β}
    (hf : ∀ a b, f a = some b ↔ ∃ c, a = g c ∧ b = h c) :
    as.mapM f = some bs ↔ ∃ cs : List γ, as = cs.map g ∧ bs = cs.map h := by
  induction as generalizing bs with
  | nil =>
      constructor
      · rintro ⟨⟩
        exact ⟨[], rfl, rfl⟩
      · rintro ⟨cs, hcs, rfl⟩
        rw [List.map_eq_nil_iff.mp hcs.symm]
        rfl
  | cons a as ih =>
      simp only [List.mapM_cons, Option.bind_eq_bind, Option.bind_eq_some_iff, Option.pure_def, Option.some.injEq,
        hf, ih]
      constructor
      · rintro ⟨_, ⟨c, rfl, rfl⟩, _, ⟨cs, rfl, rfl⟩, rfl⟩
        exact ⟨c :: cs, rfl, rfl⟩
      · rintro ⟨cs, has, rfl⟩
        obtain ⟨c, cs, rfl, rfl, rfl⟩ := List.map_eq_cons_iff.mp has.symm
        exact ⟨h c, ⟨c, rfl, rfl⟩, cs.map h, ⟨cs, rfl, rfl⟩, rfl⟩

namespace Json

variable {v : Json} {es : List (Units × Units)}

/-- An object of strings, its members as they come. -/
def objectOf (es : List (Units × Units)) : Json := .obj (es.map fun e ↦ (e.1, .str e.2))

theorem stringMembers?_eq_some_iff : v.stringMembers? = some es ↔ v = objectOf es := by
  have hmember : ∀ (m : Units × Json) (e : Units × Units),
      m.2.string?.map (m.1, ·) = some e ↔ ∃ c : Units × Units, m = (c.1, .str c.2) ∧ e = id c := by
    rintro ⟨k, v⟩ e
    cases v <;> simp [string?, Prod.ext_iff, eq_comm]
  cases v with
  | obj ms =>
      rw [stringMembers?, objectOf, Json.obj.injEq, mapM_eq_some_iff hmember]
      simp
  | null | bool | num | str | arr => simp [stringMembers?, objectOf]

end Json

namespace PinStore

variable {v : Json} {s : PinStore} {overrides : Overrides}

/-- Whether a value is an object of version one, with an object of strings for its entries and, if it has
overrides, an object of such objects; and which store it spells. -/
structure Spells (v : Json) (s : PinStore) : Prop where
  version : ∃ d, v.member? "version" = some (.num d) ∧ d.RoundsToOne
  entries : ∃ es, v.member? "entries" = some (Json.objectOf es) ∧ s.pins = .ofList es
  overrides : v.member? "overrides" = none ∧ s.overrides = .empty ∨
    ∃ os : List (Units × List (Units × Units)),
      v.member? "overrides" = some (.obj (os.map fun o ↦ (o.1, Json.objectOf o.2))) ∧
        s.overrides = .ofList (os.map fun o ↦ (o.1, .ofList o.2))

theorem overridesOfJson?_eq_some_iff :
    overridesOfJson? v = some overrides ↔ ∃ os : List (Units × List (Units × Units)),
      v = .obj (os.map fun o ↦ (o.1, Json.objectOf o.2)) ∧ overrides = .ofList (os.map fun o ↦ (o.1, .ofList o.2)) := by
  have hmember : ∀ (m : Units × Json) (e : Units × Pins), environmentOfJson? m = some e ↔
      ∃ o : Units × List (Units × Units), m = (o.1, Json.objectOf o.2) ∧ e = (o.1, .ofList o.2) := by
    rintro ⟨k, v⟩ e
    simp only [environmentOfJson?, Option.map_eq_some_iff, Json.stringMembers?_eq_some_iff]
    constructor
    · rintro ⟨es, rfl, rfl⟩
      exact ⟨(k, es), rfl, rfl⟩
    · rintro ⟨⟨k, es⟩, ⟨⟩, rfl⟩
      exact ⟨es, rfl, rfl⟩
  cases v with
  | obj ms =>
      simp only [overridesOfJson?, Option.map_eq_some_iff, mapM_eq_some_iff hmember, Json.obj.injEq]
      constructor
      · rintro ⟨_, ⟨os, rfl, rfl⟩, rfl⟩
        exact ⟨os, rfl, rfl⟩
      · rintro ⟨os, rfl, rfl⟩
        exact ⟨_, ⟨os, rfl, rfl⟩, rfl⟩
  | null | bool | num | str | arr => simp [overridesOfJson?]

/-- Exactly the values are read that spell a store, and as the store that they spell. -/
theorem ofJson?_eq_some_iff : ofJson? v = some s ↔ Spells v s := by
  constructor
  · intro h
    simp only [ofJson?, Option.bind_eq_bind, Option.bind_eq_some_iff] at h
    obtain ⟨version, hversion, h⟩ := h
    split at h
    · next d =>
      split at h
      · cases h
      · next hnot =>
        simp only [Option.bind_eq_some_iff, Json.stringMembers?_eq_some_iff] at h
        obtain ⟨_, hentries, es, rfl, h⟩ := h
        have hone : d.RoundsToOne := d.isOne_iff.mp (by simpa using hnot)
        split at h
        · next hnone =>
          cases h
          exact ⟨⟨d, hversion, hone⟩, ⟨es, hentries, rfl⟩, .inl ⟨hnone, rfl⟩⟩
        · next o hsome =>
          obtain ⟨overrides, hoverrides, ⟨⟩⟩ := Option.bind_eq_some_iff.mp h
          obtain ⟨os, rfl, rfl⟩ := overridesOfJson?_eq_some_iff.mp hoverrides
          exact ⟨⟨d, hversion, hone⟩, ⟨es, hentries, rfl⟩, .inr ⟨os, hsome, rfl⟩⟩
    · cases h
  · rintro ⟨⟨version, hversion, hone⟩, ⟨es, hentries, hpins⟩, hoverrides⟩
    obtain ⟨pins, overrides⟩ := s
    obtain rfl : pins = .ofList es := hpins
    refine ofJson?_of_members hversion (version.isOne_iff.mpr hone) hentries
      (Json.stringMembers?_eq_some_iff.mpr rfl) ?_
    obtain ⟨hnone, rfl⟩ | ⟨os, hsome, rfl⟩ := hoverrides
    · rw [hnone, overridesIn?]
    · rw [hsome, overridesIn?]
      exact overridesOfJson?_eq_some_iff.mpr ⟨os, rfl, rfl⟩

end PinStore

end Saltern
