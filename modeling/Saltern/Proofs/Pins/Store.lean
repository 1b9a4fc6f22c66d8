import Saltern.Pins.Load
import Saltern.Proofs.Json.Reread

/-!
# The store read back

A store is read back from its text. An environment that overrides nothing is not written, so what
comes back is the same pins, in common and in every environment, rather than the same store.
-/

namespace Saltern

namespace Json

variable {α : Type} {es : List (Units × Units)} {k : Units}

/-! ## Objects of strings -/

/-- Members are arranged, none lost and none added. -/
theorem arranged_perm (ms : List (Units × α)) : (arranged ms).Perm ms := by
  have hpositions : (ms.filterMap fun m ↦ (position? m.1).map (·, m)).map (·.2) =
      ms.filter fun m ↦ (position? m.1).isSome := by
    induction ms with
    | nil => rfl
    | cons m ms ih =>
        rw [List.filterMap_cons, List.filter_cons]
        cases position? m.1 with
        | none => exact ih
        | some n => exact congrArg (m :: ·) ih
  have hothers : (ms.filter fun m ↦ (position? m.1).isNone) =
      ms.filter fun m ↦ !(position? m.1).isSome := by
    simp only [Option.not_isSome]
  have hsorted := (List.mergeSort_perm (ms.filterMap fun m ↦ (position? m.1).map (·, m))
    fun a b ↦ decide (a.1 ≤ b.1)).map (·.2)
  rw [hpositions] at hsorted
  rw [arranged, hothers]
  exact (hsorted.append_right _).trans (List.filter_append_perm _ ms)

theorem nodup_keys_arranged {ms : List (Units × α)} (h : (ms.map Prod.fst).Nodup) :
    ((arranged ms).map Prod.fst).Nodup := ((arranged_perm ms).map Prod.fst).nodup_iff.mpr h

theorem proper_ofStrings (h : (es.map Prod.fst).Nodup) : Proper (ofStrings es) := by
  refine .obj ?_ ?_
  · rw [List.map_map]
    exact nodup_keys_arranged h
  · exact List.forall_mem_map.mpr fun e _ ↦ .str e.2

theorem stringMembers?_ofStrings (es : List (Units × Units)) :
    (ofStrings es).stringMembers? = some (arranged es) := by
  rw [ofStrings, stringMembers?]
  induction arranged es with
  | nil => rfl
  | cons e es ih =>
      rw [List.map_cons, List.mapM_cons, ih]
      rfl

end Json

namespace PinStore

variable {s s' : PinStore} {env k : Units}

/-- What an environment has for a key of its own. -/
def override? (s : PinStore) (env k : Units) : Option Units := (s.overrides.get? env).bind (·.get? k)

/-- The pins that an environment has of its own, where it has any. -/
def ownPins? (s : PinStore) (env : Units) : Option Pins := (s.overrides.get? env).filter fun p ↦ !p.isEmpty

theorem bind_ownPins? (s : PinStore) (env k : Units) :
    ((s.ownPins? env).bind fun p ↦ p.get? k) = s.override? env k := by
  rw [ownPins?, override?]
  cases s.overrides.get? env with
  | none => rfl
  | some p =>
      rw [Option.filter_some]
      split
      · rfl
      · next hempty =>
        rw [Bool.not_eq_true, Bool.not_eq_false', Table.isEmpty, List.isEmpty_iff] at hempty
        rw [Option.bind_some, Table.get?, hempty]
        rfl

/-- Whether two stores pin the same, in common and in every environment. -/
structure Alike (s s' : PinStore) : Prop where
  pins : ∀ k, s.pins.get? k = s'.pins.get? k
  overrides : ∀ env k, s.override? env k = s'.override? env k

theorem Alike.refl (s : PinStore) : Alike s s := ⟨fun _ ↦ rfl, fun _ _ ↦ rfl⟩

theorem Alike.trans {s'' : PinStore} (h : Alike s s') (h' : Alike s' s'') : Alike s s'' :=
  ⟨fun k ↦ (h.pins k).trans (h'.pins k), fun env k ↦ (h.overrides env k).trans (h'.overrides env k)⟩

theorem merge_append (s : PinStore) (ps qs : List (Units × Units)) :
    (s.merge ps).merge qs = s.merge (ps ++ qs) := by
  rw [merge, merge, merge, Table.setAll, Table.setAll, Table.setAll, List.foldl_append]

theorem Alike.merge (h : Alike s s') (ps : List (Units × Units)) : Alike (s.merge ps) (s'.merge ps) := by
  refine ⟨fun k ↦ ?_, h.overrides⟩
  rw [PinStore.merge, PinStore.merge, Table.get?_setAll, Table.get?_setAll, h.pins]

/-! ## A store as a value -/

theorem proper_pinsJson (pins : Pins) : (pinsJson pins).Proper := Json.proper_ofStrings pins.sorted.nodup

/-- Pins as they come back: the members of their object, as an object lists them. -/
def pinsBack (pins : Pins) : Pins := .ofList (Json.arranged pins.sorted.entries)

theorem get?_pinsBack (pins : Pins) (k : Units) : (pinsBack pins).get? k = pins.get? k := by
  have hnodup := Json.nodup_keys_arranged pins.sorted.nodup
  rw [pinsBack, Table.get?_ofList_of_perm hnodup (Json.arranged_perm _), ← Table.get?_sorted]
  rfl

theorem nodup_keys_overriding (s : PinStore) : (s.overriding.map Prod.fst).Nodup :=
  (s.overrides.filter fun e ↦ !e.2.isEmpty).sorted.nodup

theorem lookup_overriding (s : PinStore) (env : Units) : Table.lookup env s.overriding = s.ownPins? env := by
  have hfilter := Table.get?_filter s.overrides (fun e ↦ !e.2.isEmpty) env
  rw [ownPins?, ← hfilter, ← Table.get?_sorted]
  rfl

theorem proper_overridesJson {overrides : List (Units × Pins)} (h : (overrides.map Prod.fst).Nodup) :
    (overridesJson overrides).Proper := by
  refine .obj ?_ ?_
  · rw [List.map_map]
    exact Json.nodup_keys_arranged h
  · exact List.forall_mem_map.mpr fun e _ ↦ proper_pinsJson e.2

theorem proper_toJson (s : PinStore) : s.toJson.Proper := by
  have hpins := proper_pinsJson s.pins
  have hoverrides := proper_overridesJson (nodup_keys_overriding s)
  have hkeys : ([Text.units "version", Text.units "entries", Text.units "overrides"] : List Units).Nodup := by
    decide
  rw [toJson]
  split
  · refine .obj (hkeys.sublist (List.sublist_append_left [_, _] _)) ?_
    exact List.forall_mem_cons.mpr ⟨.num _, List.forall_mem_singleton.mpr hpins⟩
  · refine .obj hkeys ?_
    exact List.forall_mem_cons.mpr
      ⟨.num _, List.forall_mem_cons.mpr ⟨hpins, List.forall_mem_singleton.mpr hoverrides⟩⟩

/-! ## A store from a value -/

theorem environmentOfJson?_pinsJson (env : Units) (pins : Pins) :
    environmentOfJson? (env, pinsJson pins) = some (env, pinsBack pins) := by
  rw [environmentOfJson?, pinsJson, Json.stringMembers?_ofStrings]
  rfl

/-- Overrides as they come back: those of the environments that override something. -/
def overridesBack (s : PinStore) : Overrides :=
  .ofList ((Json.arranged s.overriding).map fun e ↦ (e.1, pinsBack e.2))

theorem overridesOfJson?_overridesJson (s : PinStore) :
    overridesOfJson? (overridesJson s.overriding) = some s.overridesBack := by
  have hmapM : ∀ es : List (Units × Pins),
      (es.map fun e ↦ (e.1, pinsJson e.2)).mapM environmentOfJson? =
        some (es.map fun e ↦ (e.1, pinsBack e.2)) := by
    intro es
    induction es with
    | nil => rfl
    | cons e es ih =>
        rw [List.map_cons, List.mapM_cons, ih, environmentOfJson?_pinsJson]
        rfl
  rw [overridesJson, overridesOfJson?, hmapM]
  rfl

theorem overridesBack_of_isEmpty (h : s.overriding.isEmpty = true) : s.overridesBack = .empty := by
  have harranged : Json.arranged ([] : List (Units × Pins)) = [] := (Json.arranged_perm []).eq_nil
  rw [overridesBack, List.isEmpty_iff.mp h, harranged]
  rfl

/-- The store as it comes back. -/
def back (s : PinStore) : PinStore := ⟨pinsBack s.pins, s.overridesBack⟩

/-- The overrides that a value may have, or none. -/
def overridesIn? (o : Option Json) : Option Overrides :=
  match o with
  | none => some .empty
  | some o => overridesOfJson? o

theorem ofJson?_of_members {v : Json} {version : Decimal} {entries : Json} {es : List (Units × Units)}
    {os : Overrides} (hversion : v.member? "version" = some (.num version)) (hone : version.isOne = true)
    (hentries : v.member? "entries" = some entries) (hes : entries.stringMembers? = some es)
    (hos : overridesIn? (v.member? "overrides") = some os) : ofJson? v = some ⟨.ofList es, os⟩ := by
  rw [ofJson?, hversion]
  simp only [Option.bind_eq_bind, Option.bind_some, hone, hentries, hes]
  cases hoverrides : v.member? "overrides" with
  | none =>
      rw [hoverrides] at hos
      cases hos
      rfl
  | some o =>
      rw [hoverrides] at hos
      have hread : overridesOfJson? o = some os := hos
      simp only [hread]
      rfl

theorem ofJson?_toJson (s : PinStore) : ofJson? s.toJson = some s.back := by
  have hone : (Decimal.mk false 1 0).isOne = true := by decide
  have hoverrides : s.toJson.member? "overrides" =
      if s.overriding.isEmpty then none else some (overridesJson s.overriding) := by
    rw [toJson]
    split <;> rfl
  have hversion : s.toJson.member? "version" = some (.num ⟨false, 1, 0⟩) := rfl
  refine ofJson?_of_members hversion hone rfl (Json.stringMembers?_ofStrings s.pins.sorted.entries) ?_
  rw [hoverrides]
  split
  · next hempty => rw [overridesBack_of_isEmpty hempty, overridesIn?]
  · exact overridesOfJson?_overridesJson s

/-- The environments that come back are those with pins of their own. -/
theorem get?_overridesBack (s : PinStore) (env : Units) :
    s.overridesBack.get? env = (s.ownPins? env).map pinsBack := by
  have hperm := (Json.arranged_perm s.overriding).map fun e ↦ (e.1, pinsBack e.2)
  have hnodup : (((Json.arranged s.overriding).map fun e ↦ (e.1, pinsBack e.2)).map Prod.fst).Nodup := by
    rw [List.map_map]
    exact Json.nodup_keys_arranged (nodup_keys_overriding s)
  rw [overridesBack, Table.get?_ofList_of_perm hnodup hperm, Table.lookup_map, lookup_overriding]

/-- What comes back pins the same as what was written. -/
theorem alike_back (s : PinStore) : Alike s.back s := by
  refine ⟨get?_pinsBack s.pins, fun env k ↦ ?_⟩
  rw [← bind_ownPins? s, override?, back, get?_overridesBack]
  cases s.ownPins? env with
  | none => rfl
  | some p => exact get?_pinsBack p k

/-- A store is read back from its text. -/
theorem ofText?_text (s : PinStore) : ofText? s.text = some s.back := by
  rw [ofText?, text, Json.ofText?_text (proper_toJson s), Option.bind_some, ofJson?_toJson]

/-! ## A store in a file -/

/-- What is loaded depends on nothing but what lies at the store's path. -/
theorem result_load (p : Path) (t : FileTree) :
    (load p t).result =
      match t.node? p with
      | none => .ok empty
      | some .dir => .error (.corruptPins p)
      | some (.file text) => (ofText? text).elim (.error (.corruptPins p)) .ok := by
  rw [load, FileTree.holds, FileTree.read]
  cases t.node? p with
  | none => rfl
  | some n =>
      cases n with
      | dir => rfl
      | file text =>
          have htext : (Except.ok text : Except DiskFault Text).toOption.bind ofText? = ofText? text := rfl
          dsimp only
          rw [htext]
          cases ofText? text with
          | none => rfl
          | some s => rfl

theorem result_load_congr {p : Path} {t u : FileTree} (h : t.node? p = u.node? p) :
    (load p t).result = (load p u).result := by
  rw [result_load, result_load, h]

/-- What is written to the store's path is loaded again. -/
theorem result_load_text {p : Path} {t : FileTree} {s : PinStore} (h : t.node? p = some (.file s.text)) :
    (load p t).result = .ok s.back := by
  rw [result_load, h]
  dsimp only
  rw [ofText?_text]
  rfl

end PinStore

end Saltern
