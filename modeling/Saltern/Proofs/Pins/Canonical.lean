import Saltern.Proofs.Files.Frame
import Saltern.Proofs.Pins.Store

/-!
# One text for a store

Stores that pin the same are written the same, whatever the order in which their pins came: each
level is sorted by its keys, environments that override nothing are left out, and an object lists its
members in an order that depends on their keys alone.
-/

namespace Saltern

namespace Json

/-- In which order members stand depends on their keys alone. -/
theorem arranged_map {α β : Type} (f : α → β) (ms : List (Units × α)) :
    arranged (ms.map fun m ↦ (m.1, f m.2)) = (arranged ms).map fun m ↦ (m.1, f m.2) := by
  have hpositions : ((ms.map fun m ↦ (m.1, f m.2)).filterMap fun m ↦ (position? m.1).map (·, m)) =
      (ms.filterMap fun m ↦ (position? m.1).map (·, m)).map fun a ↦ (a.1, a.2.1, f a.2.2) := by
    rw [List.filterMap_map, List.map_filterMap]
    refine List.filterMap_congr fun m _ ↦ ?_
    rw [Function.comp_apply, Option.map_map]
    rfl
  have hsorted := List.map_mergeSort (r := fun a b ↦ decide (a.1 ≤ b.1)) (s := fun a b ↦ decide (a.1 ≤ b.1))
    (f := fun a ↦ (a.1, a.2.1, f a.2.2)) (l := ms.filterMap fun m ↦ (position? m.1).map (·, m))
    fun _ _ _ _ ↦ rfl
  rw [arranged, arranged, hpositions, ← hsorted, List.map_append, List.map_map, List.map_map, List.filter_map]
  rfl

end Json

/-- Whether two tables of pins hold the same. -/
def Pins.Same (p q : Pins) : Prop := ∀ k, p.get? k = q.get? k

namespace PinStore

variable {s s' : PinStore} {env k : Units}

/-! ## Overrides of an environment -/

theorem exists_get?_of_ownPins? {p : Pins} (h : s.ownPins? env = some p) : ∃ k v, p.get? k = some v := by
  have hsome := (Option.filter_eq_some_iff.mp h).2
  rw [Bool.not_eq_true', Table.isEmpty, List.isEmpty_eq_false_iff] at hsome
  obtain ⟨e, es, hes⟩ := List.exists_cons_of_ne_nil hsome
  exact ⟨e.1, e.2, Table.get?_eq_some_iff.mpr (hes ▸ List.mem_cons_self)⟩

/-- Stores pin the same where they have the same pins in common and of each environment. -/
theorem alike_iff : Alike s s' ↔
    s.pins.Same s'.pins ∧ ∀ env, Option.Rel Pins.Same (s.ownPins? env) (s'.ownPins? env) := by
  constructor
  · intro h
    refine ⟨h.pins, fun env ↦ ?_⟩
    have hkeys : ∀ k, ((s.ownPins? env).bind fun p ↦ p.get? k) = (s'.ownPins? env).bind fun p ↦ p.get? k := by
      intro k
      rw [bind_ownPins?, bind_ownPins?, h.overrides]
    cases hs : s.ownPins? env with
    | none =>
        cases hs' : s'.ownPins? env with
        | none => exact .none
        | some p' =>
            obtain ⟨k, v, hk⟩ := exists_get?_of_ownPins? hs'
            have := hkeys k
            rw [hs, hs', Option.bind_some, hk] at this
            cases this
    | some p =>
        cases hs' : s'.ownPins? env with
        | none =>
            obtain ⟨k, v, hk⟩ := exists_get?_of_ownPins? hs
            have := hkeys k
            rw [hs, hs', Option.bind_some, hk] at this
            cases this
        | some p' =>
            rw [hs, hs'] at hkeys
            exact .some hkeys
  · rintro ⟨hpins, hown⟩
    refine ⟨hpins, fun env k ↦ ?_⟩
    have hrel := hown env
    rw [← bind_ownPins?, ← bind_ownPins?]
    generalize s.ownPins? env = o, s'.ownPins? env = o' at hrel
    cases hrel with
    | none => rfl
    | some hp => exact hp k

/-! ## The text -/

theorem pinsJson_congr {p q : Pins} (h : p.Same q) : pinsJson p = pinsJson q := by
  rw [pinsJson, pinsJson, Table.sorted_congr h]

/-- The overrides as they are written, by the names of their environments. -/
def overrideTable (s : PinStore) : Table Units Json where
  entries := s.overriding.map fun e ↦ (e.1, pinsJson e.2)
  nodup := by
    rw [List.map_map]
    exact s.nodup_keys_overriding

theorem get?_overrideTable (s : PinStore) (env : Units) :
    s.overrideTable.get? env = (s.ownPins? env).map pinsJson := by
  rw [← lookup_overriding, ← Table.lookup_map]
  rfl

theorem pairwise_keys_overrideTable (s : PinStore) : s.overrideTable.keys.Pairwise (· < ·) := by
  have hkeys : s.overrideTable.keys = (s.overrides.filter fun e ↦ !e.2.isEmpty).sorted.keys := List.map_map
  rw [hkeys]
  exact Table.pairwise_keys_sorted _

theorem Alike.overrideTable (h : Alike s s') : s.overrideTable = s'.overrideTable := by
  refine Table.eq_of_pairwise_keys s.pairwise_keys_overrideTable s'.pairwise_keys_overrideTable fun env ↦ ?_
  have hrel := (alike_iff.mp h).2 env
  rw [get?_overrideTable, get?_overrideTable]
  generalize s.ownPins? env = o, s'.ownPins? env = o' at hrel
  cases hrel with
  | none => rfl
  | some hp => exact congrArg some (pinsJson_congr hp)

/-- A store as a value, told from its pins and from the table of its overrides. -/
theorem toJson_eq (s : PinStore) :
    s.toJson = .obj ((Text.units "version", .ofNat 1) :: (Text.units "entries", pinsJson s.pins) ::
      if s.overrideTable.isEmpty then []
      else [(Text.units "overrides", .obj (Json.arranged s.overrideTable.entries))]) := by
  have hempty : s.overrideTable.isEmpty = s.overriding.isEmpty := List.isEmpty_map
  have hobject : overridesJson s.overriding = .obj (Json.arranged s.overrideTable.entries) :=
    congrArg Json.obj (Json.arranged_map pinsJson s.overriding).symm
  rw [toJson, hempty, hobject]

/-- Stores that pin the same have the same text. -/
theorem Alike.text (h : Alike s s') : s.text = s'.text := by
  rw [PinStore.text, PinStore.text, toJson_eq, toJson_eq, h.overrideTable, pinsJson_congr h.pins]

/-- A store written to its file is loaded again: the same pins, and the same overrides but for the
environments that have none. What is loaded has the text that was written; and stores that pin the same,
in common and in every environment that has pins of its own, have one text. -/
theorem text_canonical (s : PinStore) :
    (∀ (p : Path) (t t' : FileTree), t.write p s.text = .ok t' →
      ∃ s' : PinStore, (load p t').result = .ok s' ∧ s'.pins.Same s.pins ∧
        (∀ env, Option.Rel Pins.Same (s'.overrides.get? env) (s.ownPins? env)) ∧ s'.text = s.text) ∧
    ∀ s' : PinStore, s.pins.Same s'.pins → (∀ env, Option.Rel Pins.Same (s.ownPins? env) (s'.ownPins? env)) →
      s.text = s'.text := by
  refine ⟨fun p t t' hwrite ↦ ?_, fun s' hpins hown ↦ (alike_iff.mpr ⟨hpins, hown⟩).text⟩
  refine ⟨s.back, result_load_text (FileTree.node?_write_self hwrite), s.alike_back.pins, fun env ↦ ?_,
    s.alike_back.text⟩
  rw [back, get?_overridesBack]
  cases s.ownPins? env with
  | none => exact .none
  | some p => exact .some (get?_pinsBack p)

/-- Keys that count as positions, a key that objects treat in a way of its own, and an environment that
overrides nothing, as they stand and the other way round. -/
theorem text_canonical_reversed :
    let pins : List (Units × Units) := [(Text.units "b", Text.units "1"), (Text.units "10", Text.units "2"),
      (Text.units "9", Text.units "3"), (Text.units "__proto__", Text.units "4")]
    let own : List (Units × Units) := [(Text.units "b", Text.units "5"), (Text.units "7", Text.units "6")]
    let s : PinStore := ⟨.ofList pins, .ofList [(Text.units "dev", .empty), (Text.units "qa", .ofList own)]⟩
    let u : PinStore := ⟨.ofList pins.reverse, .ofList [(Text.units "qa", .ofList own.reverse)]⟩
    s.text = u.text ∧
      ∃ t' s', FileTree.write ⟨.empty⟩ (.ofText "/versions.json") s.text = .ok t' ∧
        (load (.ofText "/versions.json") t').result = .ok s' ∧ s'.text = s.text ∧
        (s'.overrides.get? (Text.units "dev")).isNone = true := by
  intro pins own s u
  have hreversed : ∀ es : List (Units × Units), (es.map Prod.fst).Nodup →
      Pins.Same (.ofList es) (.ofList es.reverse) := by
    intro es hes k
    have hes' : (es.reverse.map Prod.fst).Nodup := ((List.reverse_perm es).map _).nodup_iff.mpr hes
    rw [Table.get?_ofList_of_perm hes (.refl es), Table.get?_ofList_of_perm hes' (List.reverse_perm es)]
  have hown : ∀ env, Option.Rel Pins.Same (s.ownPins? env) (u.ownPins? env) := by
    intro env
    by_cases hqa : Text.units "qa" = env
    · subst hqa
      exact .some (hreversed own (by decide +kernel))
    · have hs : s.ownPins? env = none := by
        change (((Table.empty.set _ _).set _ _).get? env).filter _ = none
        rw [Table.get?_set, if_neg hqa, Table.get?_set]
        split <;> rfl
      have hu : u.ownPins? env = none := by
        change ((Table.empty.set _ _).get? env).filter _ = none
        rw [Table.get?_set, if_neg hqa]
        rfl
      rw [hs, hu]
      exact .none
  obtain ⟨t', ht'⟩ : ∃ t', FileTree.write ⟨.empty⟩ (.ofText "/versions.json") s.text = .ok t' := ⟨_, rfl⟩
  obtain ⟨s', hs', -, hoverrides, htext⟩ := (text_canonical s).1 _ _ _ ht'
  refine ⟨(text_canonical s).2 u (hreversed pins (by decide +kernel)) hown, t', s', ht', hs', htext, ?_⟩
  have hdev := hoverrides (Text.units "dev")
  have hnone : s.ownPins? (Text.units "dev") = none := by decide +kernel
  rw [hnone] at hdev
  generalize s'.overrides.get? (Text.units "dev") = o at hdev
  cases hdev
  rfl

end PinStore

end Saltern
