import Mathlib.Data.List.Induction
import Saltern.Proofs.Pins.Shape

/-!
# Calls on a store

A program keeps a store in memory and calls it as it likes, while the file at the store's path may change in
any way between two calls. A load replaces the store as a whole or not at all, a merge reaches the merged
keys only, and no other call changes anything. So the store is at any time the one that was loaded last, with
all that was merged into it since.
-/

namespace Saltern

/-- What is done with a store in memory. What was done to the store before a failure stays done. -/
abbrev InMemory := ExceptT Failure (StateM PinStore)

namespace PinStore

variable {path : Path} {t : FileTree} {s : PinStore}

/-! ## Loading -/

/-- What a load finds: the empty store where nothing lies at the path, and else the store that the file's text
spells. -/
inductive Loads (path : Path) (t : FileTree) : PinStore → Prop
  | absent (h : t.node? path = none) : Loads path t empty
  | file {text : Text} {v : Json} {file : PinStore} (h : t.node? path = some (.file text))
      (hv : Json.ofText? text = some v) (hfile : Spells v file) : Loads path t file

theorem ofText?_eq_some_iff {text : Text} : ofText? text = some s ↔ ∃ v, Json.ofText? text = some v ∧ Spells v s := by
  simp only [ofText?, Option.bind_eq_some_iff, ofJson?_eq_some_iff]

/-- The store that a load finds, if there is one. -/
def found? (path : Path) (t : FileTree) : Option PinStore :=
  match t.node? path with
  | none => some empty
  | some .dir => none
  | some (.file text) => ofText? text

theorem found?_eq_some_iff : found? path t = some s ↔ Loads path t s := by
  rw [found?]
  constructor
  · intro h
    split at h
    · next hnode =>
      cases h
      exact .absent hnode
    · cases h
    · next text hnode =>
      obtain ⟨v, hv, hfile⟩ := ofText?_eq_some_iff.mp h
      exact .file hnode hv hfile
  · rintro (hnode | ⟨hnode, hv, hfile⟩)
    · rw [hnode]
    · rw [hnode]
      exact ofText?_eq_some_iff.mpr ⟨_, hv, hfile⟩

/-- A load gives what it finds, or blames the path. -/
theorem result_load_eq (path : Path) (t : FileTree) :
    (load path t).result = (found? path t).elim (.error (.corruptPins path)) .ok := by
  rw [result_load, found?]
  rcases t.node? path with _ | text | _ <;> rfl

/-! ## Loading in memory -/

def replacePins (pins : Pins) : InMemory Unit := modify fun s ↦ { s with pins := pins }

def replaceOverrides (overrides : Overrides) : InMemory Unit := modify fun s ↦ { s with overrides := overrides }

/-- Loading, one field after the other: both are emptied where there is no file, and else they are replaced
after the file has been read and its shape has been checked. -/
def reload (path : Path) (t : FileTree) : InMemory Unit :=
  if t.holds path then
    match (t.read path).toOption.bind Json.ofText? with
    | none => throw (.corruptPins path)
    | some v =>
      match ofJson? v with
      | none => throw (.corruptPins path)
      | some file => do
        replacePins file.pins
        replaceOverrides file.overrides
  else do
    replacePins .empty
    replaceOverrides .empty

/-- In memory the store becomes the one that is loaded, or stays what it was. -/
theorem run_reload (path : Path) (t : FileTree) (s : PinStore) :
    (reload path t).run s =
      match (load path t).result with
      | .ok file => (.ok (), file)
      | .error e => (.error e, s) := by
  have hread : (t.read path).toOption.bind ofText? = ((t.read path).toOption.bind Json.ofText?).bind ofJson? := by
    cases (t.read path).toOption <;> rfl
  rw [reload, load, hread]
  by_cases hholds : t.holds path = true
  · rw [if_pos hholds, if_pos hholds]
    cases (t.read path).toOption.bind Json.ofText? with
    | none => rfl
    | some v =>
        rw [Option.bind_some]
        dsimp only
        cases ofJson? v <;> rfl
  · rw [if_neg hholds, if_neg hholds]
    rfl

/-! ## Sessions -/

/-- A store in memory, and what lies on the disk. -/
structure Session where
  store : PinStore
  tree : FileTree

/-- What may happen next: the disk changes, whatever becomes of it, or the store is called. -/
inductive Event
  | change (tree : FileTree)
  | load
  | merge (pins : Pins)
  | get (key : Units)
  | serialize

inductive Answer
  | done
  | failed (e : Failure)
  | version (v : Option Units)
  | text (t : Text)
  deriving DecidableEq

namespace Session

variable {s : Session} {ev : Event}

/-- One event, and what is answered to it. -/
def step (path : Path) (s : Session) : Event → Answer × Session
  | .change tree => (.done, { s with tree := tree })
  | .load =>
    match (reload path s.tree).run s.store with
    | (.ok (), store) => (.done, { s with store := store })
    | (.error e, store) => (.failed e, { s with store := store })
  | .merge pins => (.done, { s with store := s.store.merge pins.entries })
  | .get key => (.version (s.store.pins.get? key), s)
  | .serialize => (.text s.store.text, s)

/-- A session after some events. -/
def after (path : Path) (s : Session) (evs : List Event) : Session := evs.foldl (fun s ev ↦ (s.step path ev).2) s

/-- What each event is answered and what it leaves: a load puts the store that it finds in place of the one in
memory, or fails and leaves it; a merge gives the merged keys their versions, and no other key. -/
inductive Steps (path : Path) (s : Session) : Event → Answer → Session → Prop
  | changed (tree : FileTree) : Steps path s (.change tree) .done ⟨s.store, tree⟩
  | loaded {file : PinStore} (h : Loads path s.tree file) : Steps path s .load .done ⟨file, s.tree⟩
  | refused (h : ∀ file, ¬ Loads path s.tree file) : Steps path s .load (.failed (.corruptPins path)) s
  | merged {pins : Pins} {store : PinStore}
      (hpins : ∀ k, store.pins.get? k = (pins.get? k).or (s.store.pins.get? k))
      (hoverrides : store.overrides = s.store.overrides) : Steps path s (.merge pins) .done ⟨store, s.tree⟩
  | got (key : Units) : Steps path s (.get key) (.version (s.store.pins.get? key)) s
  | serialized : Steps path s .serialize (.text s.store.text) s

theorem step_load (path : Path) (s : Session) :
    s.step path .load =
      (found? path s.tree).elim (.failed (.corruptPins path), s) fun file ↦ (.done, ⟨file, s.tree⟩) := by
  rw [step, run_reload, result_load_eq]
  cases found? path s.tree <;> rfl

theorem step_load_of_loads {file : PinStore} (h : Loads path s.tree file) :
    s.step path .load = (.done, ⟨file, s.tree⟩) := by
  rw [step_load, found?_eq_some_iff.mpr h]
  rfl

theorem step_load_of_not_loads (h : ∀ file, ¬ Loads path s.tree file) :
    s.step path .load = (.failed (.corruptPins path), s) := by
  have hnone : found? path s.tree = none :=
    Option.eq_none_iff_forall_ne_some.mpr fun file hfile ↦ h file (found?_eq_some_iff.mp hfile)
  rw [step_load, hnone]
  rfl

/-- Each event is answered and leaves what it should. -/
theorem steps_step (path : Path) (s : Session) (ev : Event) :
    Steps path s ev (s.step path ev).1 (s.step path ev).2 := by
  cases ev with
  | change tree => exact .changed tree
  | load =>
      by_cases h : ∃ file, Loads path s.tree file
      · obtain ⟨file, hfile⟩ := h
        rw [step_load_of_loads hfile]
        exact .loaded hfile
      · rw [step_load_of_not_loads (not_exists.mp h)]
        exact .refused (not_exists.mp h)
  | merge pins => exact .merged (fun k ↦ Table.get?_setAll_entries s.store.pins pins k) rfl
  | get key => exact .got key
  | serialize => exact .serialized

/-- A load succeeds exactly where it finds a store. -/
theorem step_load_eq_done_iff : (s.step path .load).1 = .done ↔ ∃ file, Loads path s.tree file := by
  constructor
  · intro h
    by_contra hno
    rw [step_load_of_not_loads (not_exists.mp hno)] at h
    cases h
  · rintro ⟨file, hfile⟩
    rw [step_load_of_loads hfile]

/-! ## Runs -/

theorem after_concat (path : Path) (s : Session) (evs : List Event) (ev : Event) :
    s.after path (evs ++ [ev]) = ((s.after path evs).step path ev).2 := by
  rw [after, List.foldl_append]
  rfl

/-- All that some events merge, in order. -/
def mergedBy (evs : List Event) : List (Units × Units) :=
  evs.flatMap fun
    | .merge pins => pins.entries
    | _ => []

theorem mergedBy_concat (evs : List Event) (ev : Event) : mergedBy (evs ++ [ev]) = mergedBy evs ++ mergedBy [ev] :=
  List.flatMap_append

/-- An event that loads nothing leaves the store as it was, but for what it merges. -/
theorem store_step (h : ¬ (ev = .load ∧ ∃ file, Loads path s.tree file)) :
    (s.step path ev).2.store = s.store.merge (mergedBy [ev]) := by
  cases ev with
  | load =>
      rw [step_load_of_not_loads fun file hfile ↦ h ⟨rfl, file, hfile⟩]
      rfl
  | merge pins => exact congrArg s.store.merge (List.append_nil pins.entries).symm
  | change | get | serialize => rfl

/-- What a session starts from behind some events, whatever it did before: the store it had at first, or the one
that the last of the events loads. -/
inductive StartsFrom (path : Path) (s : Session) : List Event → PinStore → Prop
  | first : StartsFrom path s [] s.store
  | loaded {front : List Event} {file : PinStore} (h : Loads path (s.after path front).tree file) :
      StartsFrom path s (front ++ [.load]) file

/-- Whether the store behind some events is the one that was there first or was loaded last, with all that was
merged since. -/
structure Accumulates (path : Path) (s : Session) (before since : List Event) (base : PinStore) : Prop where
  start : StartsFrom path s before base
  refused : ∀ front, front ++ [.load] <+: since → ∀ file, ¬ Loads path (s.after path (before ++ front)).tree file
  store : (s.after path (before ++ since)).store = base.merge (mergedBy since)

theorem exists_accumulates (path : Path) (s : Session) (evs : List Event) :
    ∃ before since base, evs = before ++ since ∧ Accumulates path s before since base := by
  induction evs using List.reverseRecOn with
  | nil => exact ⟨[], [], s.store, rfl, .first, by simp, rfl⟩
  | append_singleton evs ev ih =>
      obtain ⟨before, since, base, rfl, hstart, hrefused, hstore⟩ := ih
      by_cases hload : ev = .load ∧ ∃ file, Loads path (s.after path (before ++ since)).tree file
      · obtain ⟨rfl, file, hfile⟩ := hload
        refine ⟨before ++ since ++ [.load], [], file, (List.append_nil _).symm, .loaded hfile, by simp, ?_⟩
        rw [List.append_nil, after_concat, step_load_of_loads hfile]
        rfl
      · refine ⟨before, since ++ [ev], base, List.append_assoc .., hstart, fun front hfront file hfile ↦ ?_, ?_⟩
        · obtain heq | hprefix := List.prefix_concat_iff.mp hfront
          · obtain ⟨rfl, hev⟩ := List.append_inj' heq rfl
            exact hload ⟨(List.cons.inj hev).1.symm, file, hfile⟩
          · exact hrefused front hprefix file hfile
        · rw [← List.append_assoc, after_concat, store_step hload, hstore, mergedBy_concat, merge_append]

/-- Whatever happened before, each event is answered and leaves what it should, a load succeeds exactly where it
finds a store, and the store in memory is the first or the one loaded last, with all that was merged since. -/
theorem after_local (path : Path) (s : Session) (evs : List Event) :
    (∀ ev, Steps path (s.after path evs) ev ((s.after path evs).step path ev).1 (s.after path (evs ++ [ev]))) ∧
      (((s.after path evs).step path .load).1 = .done ↔ ∃ file, Loads path (s.after path evs).tree file) ∧
      ∃ before since base, evs = before ++ since ∧ Accumulates path s before since base := by
  refine ⟨fun ev ↦ ?_, step_load_eq_done_iff, exists_accumulates path s evs⟩
  rw [after_concat]
  exact steps_step path (s.after path evs) ev

/-- A file that breaks off is refused, and the pins loaded before it stay. -/
theorem after_local_broken_file :
    let path : Path := ⟨["versions.json"], by decide⟩
    let disk (text : Text) : FileTree := ⟨.ofList [(path, .file text)]⟩
    let s : Session := ⟨empty, disk "\x7b\"version\": 1e0, \"entries\": \x7b\"web.nginx\": \"1.2\"\x7d\x7d"⟩
    let broken := s.after path [.load, .change (disk "\x7b\"version\": 1")]
    (∀ file, ¬ Loads path broken.tree file) ∧
      (broken.after path [.load]).store.pins.entries = [(Text.units "web.nginx", Text.units "1.2")] := by
  intro path disk s broken
  have hfailed : (broken.step path .load).1 = .failed (.corruptPins path) := by decide +kernel
  refine ⟨fun file hfile ↦ ?_, by decide +kernel⟩
  have hdone := (after_local path s [.load, .change (disk "\x7b\"version\": 1")]).2.1.mpr ⟨file, hfile⟩
  exact Answer.noConfusion (hfailed.symm.trans hdone)

end Session

end PinStore

end Saltern
