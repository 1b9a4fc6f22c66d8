import Saltern.Proofs.Log.History

/-!
# Trees of loggers

Whatever loggers are made and whatever levels are set, in whichever order, what counts for a logger can be told from
the calls: its level is the one last set on the nearest logger on the line up to the root that was ever given one,
and in front of its messages stand the labels of that line.
-/

namespace Saltern

/-- A tree of loggers, and the lines that its sink has got. -/
structure LogSession where
  loggers : Loggers
  sink : List LogLine

namespace LogSession

def start (level : Option Level) (label : Text) (coloured : Bool) : LogSession := ⟨.root level label coloured, []⟩

def call (r : LogSession) : LogCall → LogSession
  | .child i label => { r with loggers := r.loggers.child i label }
  | .setLevel i level => { r with loggers := r.loggers.setLevel i level }
  | .log i s message => { r with sink := r.sink ++ (r.loggers.log i s message).toList }

def after (r : LogSession) (cs : List LogCall) : LogSession := cs.foldl call r

end LogSession

/-! ## Trees -/

namespace Loggers

variable {t : Loggers} {ls : List Logger} {l : Logger} {i j p depth : Nat} {x : Level} {own : Text}

theorem levelWithin_of_level (hj : ls[j]? = some l) (hl : l.level = some x) :
    levelWithin ls (depth + 1) j = x := by
  rw [levelWithin, hj]
  dsimp only
  rw [hl]

theorem levelWithin_of_parent (hj : ls[j]? = some l) (hl : l.level = none) (hp : l.parent = some p) :
    levelWithin ls (depth + 1) j = levelWithin ls depth p := by
  rw [levelWithin, hj]
  dsimp only
  rw [hl, hp]

theorem eq_of_getElem?_root {level : Option Level} {label : Text} {coloured : Bool}
    (hl : (root level label coloured).list[j]? = some l) :
    j = 0 ∧ l = ⟨none, some (level.getD (.upTo .info)), label⟩ := by
  rw [root, List.getElem?_singleton] at hl
  split at hl
  · next hj => exact ⟨hj, (Option.some.inj hl).symm⟩
  · cases hl

theorem eq_of_getElem?_child (hl : (t.child i own).list[j]? = some l) :
    t.list[j]? = some l ∨ j = t.list.length ∧ l = ⟨some i, none, t.label i ++ own⟩ := by
  rw [child, List.getElem?_append] at hl
  split at hl
  · exact .inl hl
  · next hlt =>
    rw [List.getElem?_singleton] at hl
    split at hl
    · exact .inr ⟨by omega, (Option.some.inj hl).symm⟩
    · cases hl

theorem label_child_of_lt (hj : j < t.list.length) : (t.child i own).label j = t.label j := by
  rw [label, child, List.getElem?_append_left hj]
  rfl

theorem label_child_length : (t.child i own).label t.list.length = t.label i ++ own := by
  rw [label, child, List.getElem?_concat_length]
  rfl

theorem eq_of_getElem?_setLevel (hl : (t.setLevel i x).list[j]? = some l) :
    ∃ l', t.list[j]? = some l' ∧ l = if i = j then { l' with level := some x } else l' := by
  rw [setLevel, List.getElem?_modify] at hl
  obtain ⟨l', hl', rfl⟩ := Option.map_eq_some_iff.mp hl
  exact ⟨l', hl', rfl⟩

theorem label_setLevel : (t.setLevel i x).label j = t.label j := by
  have hsame : (fun l : Logger ↦ l.label) ∘ (fun l ↦ if i = j then { l with level := some x } else l) =
      fun l ↦ l.label := by
    funext l
    dsimp only [Function.comp]
    split <;> rfl
  rw [label, setLevel, List.getElem?_modify, Option.map_eq_map, Option.map_map, hsame]
  rfl

end Loggers

namespace LogCall

open Loggers

variable {level : Option Level} {label : Text} {coloured : Bool} {cs : List LogCall} {c : LogCall} {t : Loggers}
  {r : LogSession} {j : Nat} {ks : List Nat}

/-- A tree as calls make it: each logger is below the one that it was made below, has the level that was last set on
it, and has its own label behind that of the one above. -/
structure Recorded (level : Option Level) (label : Text) (coloured : Bool) (cs : List LogCall) (t : Loggers) :
    Prop where
  length : t.list.length = (made cs).length + 1
  coloured : t.coloured = coloured
  parent : ∀ j l, t.list[j]? = some l → l.parent = parent? cs j
  level : ∀ j l, t.list[j]? = some l → l.level = explicit? level cs j
  root : t.label 0 = label
  child : ∀ k i own, (made cs)[k]? = some (i, own) → t.label (k + 1) = t.label i ++ own

theorem recorded_root : Recorded level label coloured [] (.root level label coloured) where
  length := rfl
  coloured := rfl
  parent j l hl := by
    obtain ⟨rfl, rfl⟩ := eq_of_getElem?_root hl
    rfl
  level j l hl := by
    obtain ⟨rfl, rfl⟩ := eq_of_getElem?_root hl
    rfl
  root := rfl
  child := nofun

namespace Recorded

variable {i : Nat} {x : Level} {own : Text}

theorem lt_length (h : Recorded level label coloured cs t) (hj : j ≤ (made cs).length) : j < t.list.length := by
  rw [h.length]
  omega

theorem call_child (h : Recorded level label coloured cs t) (hs : History cs) (hi : i ≤ (made cs).length) :
    Recorded level label coloured (cs ++ [.child i own]) (t.child i own) := by
  have hmade : made (cs ++ [.child i own]) = made cs ++ [(i, own)] := made_concat cs _
  have hlevel : ∀ j, explicit? level (cs ++ [.child i own]) j = explicit? level cs j := fun j ↦
    (explicit?_concat level cs _ j).trans Option.none_or
  refine ⟨?_, h.coloured, fun j l hl ↦ ?_, fun j l hl ↦ ?_, ?_, fun k i' own' hk ↦ ?_⟩
  · rw [hmade, List.length_append, Nat.add_right_comm, ← h.length]
    exact List.length_append
  · rcases eq_of_getElem?_child hl with hl | ⟨rfl, rfl⟩
    · have hlt := (List.getElem?_eq_some_iff.mp hl).1
      rw [h.parent j l hl]
      cases j with
      | zero => rfl
      | succ k =>
          rw [h.length] at hlt
          rw [parent?, parent?, hmade, List.getElem?_append_left (Nat.lt_of_succ_lt_succ hlt)]
    · rw [h.length, parent?, hmade, List.getElem?_concat_length]
      rfl
  · rw [hlevel]
    -- No level was set on the new logger, since no call before could be made to it.
    rcases eq_of_getElem?_child hl with hl | ⟨rfl, rfl⟩
    · exact h.level j l hl
    · exact (hs.explicit?_eq_none (by rw [h.length]; omega)).symm
  · rw [label_child_of_lt (h.lt_length (Nat.zero_le _)), h.root]
  · rw [hmade, List.getElem?_append] at hk
    split at hk
    · next hlt =>
      have hle := hs.le_of_made hk
      rw [label_child_of_lt (h.lt_length hlt), label_child_of_lt (h.lt_length (by omega)), h.child k i' own' hk]
    · next hlt =>
      rw [List.getElem?_singleton] at hk
      split at hk
      · obtain ⟨rfl, rfl⟩ := Prod.mk.inj (Option.some.inj hk)
        have hlast : k + 1 = t.list.length := by
          rw [h.length]
          omega
        rw [hlast, label_child_length, label_child_of_lt (h.lt_length hi)]
      · cases hk

theorem call_setLevel (h : Recorded level label coloured cs t) :
    Recorded level label coloured (cs ++ [.setLevel i x]) (t.setLevel i x) := by
  have hmade := made_concat_setLevel cs i x
  refine ⟨?_, h.coloured, fun j l hl ↦ ?_, fun j l hl ↦ ?_, label_setLevel.trans h.root, fun k i' own' hk ↦ ?_⟩
  · rw [hmade, ← h.length]
    exact List.length_modify _ _ _
  · obtain ⟨l', hl', rfl⟩ := eq_of_getElem?_setLevel hl
    rw [parent?_congr hmade, ← h.parent j l' hl']
    split <;> rfl
  · obtain ⟨l', hl', rfl⟩ := eq_of_getElem?_setLevel hl
    rw [explicit?_setLevel]
    by_cases hij : i = j
    · rw [if_pos hij, hij, Function.update_self]
    · rw [if_neg hij, Function.update_of_ne (Ne.symm hij), h.level j l' hl']
  · rw [hmade] at hk
    rw [label_setLevel, label_setLevel, h.child k i' own' hk]

theorem call (h : Recorded level label coloured cs r.loggers) (hs : History cs) (hc : c.logger ≤ (made cs).length) :
    Recorded level label coloured (cs ++ [c]) (r.call c).loggers := by
  cases c with
  | child i own => exact h.call_child hs hc
  | setLevel i l => exact h.call_setLevel
  | log i s message =>
      have hmade : made (cs ++ [.log i s message]) = made cs := (made_concat cs _).trans (List.append_nil _)
      have hlevel : explicit? level (cs ++ [.log i s message]) = explicit? level cs :=
        funext fun j ↦ (explicit?_concat level cs _ j).trans Option.none_or
      refine ⟨?_, h.coloured, ?_, ?_, h.root, ?_⟩
      · rw [hmade]
        exact h.length
      · rw [parent?_congr hmade]
        exact h.parent
      · rw [hlevel]
        exact h.level
      · rw [hmade]
        exact h.child

end Recorded

/-- Whatever the calls are, the tree is as they make it. -/
theorem History.recorded (hs : History cs) :
    Recorded level label coloured cs ((LogSession.start level label coloured).after cs).loggers := by
  induction hs with
  | nil => exact recorded_root
  | concat hs hc ih =>
      rw [LogSession.after, List.foldl_append]
      exact ih.call hs hc

namespace Recorded

/-- What counts for a logger is what the first on its line with a level of its own has, if one looks far enough. -/
theorem findSome?_explicit? (h : Recorded level label coloured cs t) (hs : History cs) (hline : Line cs j ks)
    {depth : Nat} (hdepth : j ≤ depth) :
    ks.findSome? (explicit? level cs) = some (levelWithin t.list (depth + 1) j) := by
  induction hline generalizing depth with
  | root =>
      -- The root always has a level of its own, so the search ends here at the latest.
      obtain ⟨x, hx⟩ := Option.isSome_iff_exists.mp (isSome_explicit?_zero level cs)
      have hget := List.getElem?_eq_getElem (h.lt_length (Nat.zero_le _))
      rw [List.findSome?_cons, hx, levelWithin_of_level hget ((h.level _ _ hget).trans hx)]
  | @child k i own ks hk hline ih =>
      have hkm := (List.getElem?_eq_some_iff.mp hk).1
      have hget := List.getElem?_eq_getElem (h.lt_length hkm)
      rw [List.findSome?_cons]
      cases hx : explicit? level cs (k + 1) with
      | some x => rw [levelWithin_of_level hget ((h.level _ _ hget).trans hx)]
      | none =>
          have hparent : parent? cs (k + 1) = some i := congrArg (Option.map Prod.fst) hk
          have hle := hs.le_of_made hk
          rw [levelWithin_of_parent hget ((h.level _ _ hget).trans hx) ((h.parent _ _ hget).trans hparent)]
          obtain ⟨depth, rfl⟩ := Nat.exists_eq_add_of_le' (Nat.le_trans (Nat.succ_pos k) hdepth)
          exact ih (Nat.le_trans hle (Nat.le_of_succ_le_succ hdepth))

/-- In front of a logger's messages stand the labels of its line, the root's first. -/
theorem label_eq (h : Recorded level label coloured cs t) (hline : Line cs j ks) :
    t.label j = ks.reverse.flatMap (ownLabel label cs) := by
  induction hline with
  | root => exact h.root.trans (List.append_nil _).symm
  | @child k i own ks hk _ ih =>
      rw [h.child k i own hk, ih, List.reverse_cons, List.flatMap_append, List.flatMap_singleton, ownLabel, hk]
      rfl

end Recorded

end LogCall

theorem Level.admits_iff {l : Level} {s : Severity} :
    l.admits s = true ↔ ∃ top, l = .upTo top ∧ s.rank ≤ top.rank := by
  cases l <;> simp [admits]

namespace Loggers

/-- What stands in front of a message: the label and a space, if there is a label. -/
def lead (coloured : Bool) (label : Text) : Text :=
  if label = [] then [] else (if coloured then paint "35" label else label) ++ [' ']

/-- A message in the colour of its severity, if there are colours. -/
def tinted (coloured : Bool) (s : Severity) (message : Text) : Text :=
  if coloured then paint s.colour message else message

theorem decorate_eq (coloured : Bool) (label : Text) (s : Severity) (message : Text) :
    decorate coloured label s message = lead coloured label ++ tinted coloured s message := by
  cases label with
  | nil => rfl
  | cons c label =>
      rw [decorate, lead, if_neg (List.cons_ne_nil c label), List.append_assoc]
      rfl

end Loggers

namespace LogSession

open LogCall Loggers

/-- At any time each logger has a line up to the root. What counts for it is the level last set on the first of the
line that has one of its own; a level set on a logger becomes what counts for those, and only those, on whose line
none before it has one; and a message comes out once, by its severity and behind all labels of the line, if the level
reaches as far, and else not at all. -/
theorem line_settles (level : Option Level) (label : Text) (coloured : Bool) {cs : List LogCall} (hs : History cs)
    {j : Nat} (hj : j ≤ (made cs).length) :
    let r := (start level label coloured).after cs
    ∃ ks, Line cs j ks ∧
      ks.findSome? (explicit? level cs) = some (r.loggers.level j) ∧
      (∀ i l, i ≤ (made cs).length →
        (Governs (explicit? level cs) ks i → (r.call (.setLevel i l)).loggers.level j = l) ∧
        (¬ Governs (explicit? level cs) ks i → (r.call (.setLevel i l)).loggers.level j = r.loggers.level j)) ∧
      ∀ s message,
        ((∃ top, r.loggers.level j = .upTo top ∧ s.rank ≤ top.rank) → (r.call (.log j s message)).sink =
          r.sink ++ [⟨s, lead coloured (ks.reverse.flatMap (ownLabel label cs)) ++ tinted coloured s message⟩]) ∧
        (¬ (∃ top, r.loggers.level j = .upTo top ∧ s.rank ≤ top.rank) →
          (r.call (.log j s message)).sink = r.sink) := by
  intro r
  have hr : Recorded level label coloured cs r.loggers := hs.recorded
  obtain ⟨ks, hks⟩ := hs.exists_line hj
  have hlevel := hr.findSome?_explicit? hs hks (Nat.le_refl j)
  refine ⟨ks, hks, hlevel, fun i l hi ↦ ?_, fun s message ↦ ?_⟩
  · have hset : ks.findSome? (explicit? level (cs ++ [.setLevel i l])) =
        some ((r.call (.setLevel i l)).loggers.level j) :=
      hr.call_setLevel.findSome?_explicit? (hs.concat hi) (hks.congr (made_concat_setLevel cs i l)) (Nat.le_refl j)
    rw [explicit?_setLevel] at hset
    constructor
    · intro hgoverns
      rw [findSome?_update_of_governs hgoverns] at hset
      exact (Option.some.inj hset).symm
    · intro hgoverns
      rw [findSome?_update_of_not_governs hgoverns, hlevel] at hset
      exact (Option.some.inj hset).symm
  · rw [← Level.admits_iff, LogSession.call, Loggers.log]
    constructor
    · intro hadmits
      rw [if_pos hadmits, decorate_eq, hr.coloured, hr.label_eq hks]
      rfl
    · intro hadmits
      rw [if_neg hadmits]
      exact List.append_nil _

/-- A level set above a logger with a level of its own does not reach those below it; one set on that logger does, and
their messages come out behind all labels. -/
theorem line_settles_middle :
    let cs : List LogCall := [.child 0 "[run]", .child 1 "[map]", .setLevel 1 .silent]
    let r := (start none "[brine]" false).after cs
    let r' := r.call (.setLevel 1 (.upTo .warn))
    (r.call (.log 2 .error "gone")).sink = [] ∧
      (r.call (.setLevel 0 (.upTo .debug))).loggers.level 2 = .silent ∧
      r'.loggers.level 2 = .upTo .warn ∧
      (r'.call (.log 2 .error "kept")).sink = [⟨.error, "[brine][run][map] kept"⟩] := by
  intro cs r r'
  have hs : History cs := .concat (.concat (.concat .nil (by decide)) (by decide)) (by decide)
  have hs' : History (cs ++ [.setLevel 1 (.upTo .warn)]) := hs.concat (by decide)
  have hline : Line cs 2 [2, 1, 0] := .child rfl (.child rfl .root)
  obtain ⟨ks, hks, hlevel, hset, hlog⟩ := line_settles none "[brine]" false hs (j := 2) (by decide)
  obtain rfl := hline.unique hks
  have hsilent : r.loggers.level 2 = .silent := (Option.some.inj hlevel).symm
  obtain ⟨ks', hks', -, -, hlog'⟩ := line_settles none "[brine]" false hs' (j := 2) (by decide)
  obtain rfl := (hline.congr (made_concat_setLevel cs 1 _)).unique hks'
  have hwarn : r'.loggers.level 2 = .upTo .warn := (hset 1 _ (by decide)).1 ⟨[2], [0], rfl, by decide⟩
  refine ⟨(hlog _ _).2 ?_, ?_, hwarn, (hlog' .error "kept").1 ⟨.warn, hwarn, by decide⟩⟩
  · rw [hsilent]
    exact fun ⟨_, h, _⟩ ↦ nomatch h
  · refine ((hset 0 _ (by decide)).2 ?_).trans hsilent
    rintro ⟨_ | ⟨_, _ | ⟨_, below⟩⟩, above, h, hbelow⟩
    · cases h
    · cases h
    · obtain ⟨-, h⟩ := List.cons.inj h
      obtain ⟨rfl, -⟩ := List.cons.inj h
      exact absurd (hbelow 1 (List.mem_cons_of_mem _ List.mem_cons_self)) (by decide)

end LogSession

end Saltern
