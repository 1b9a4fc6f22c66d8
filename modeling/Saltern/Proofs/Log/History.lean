import Mathlib.Data.List.Basic
import Saltern.Log.Logger

/-!
# Calls on loggers

What calls on the loggers of a tree say: which loggers there are by then, which one each is below, the label that it
was made with, and the level that was last set on it.
-/

namespace Saltern

/-- What is done with the loggers of a tree. -/
inductive LogCall
  | child (i : Nat) (label : Text)
  | setLevel (i : Nat) (level : Level)
  | log (i : Nat) (s : Severity) (message : Text)

namespace LogCall

/-- The logger that a call is made to. -/
def logger : LogCall → Nat
  | child i _ | setLevel i _ | log i _ _ => i

/-- The logger that a call makes: the one it is below, and its own label. -/
def birth? : LogCall → Option (Nat × Text)
  | child i label => some (i, label)
  | _ => none

/-- The level that a call sets for a logger. -/
def levelFor? (j : Nat) : LogCall → Option Level
  | setLevel i level => if i = j then some level else none
  | _ => none

/-- The loggers that calls make, behind the root. -/
def made (cs : List LogCall) : List (Nat × Text) := cs.filterMap birth?

/-- Calls that are made to loggers that are there by then. -/
inductive History : List LogCall → Prop
  | nil : History []
  | concat {cs : List LogCall} {c : LogCall} : History cs → c.logger ≤ (made cs).length → History (cs ++ [c])

/-- The logger that a logger is below. -/
def parent? (cs : List LogCall) : Nat → Option Nat
  | 0 => none
  | k + 1 => (made cs)[k]?.map Prod.fst

/-- The label that a logger itself was made with. -/
def ownLabel (label : Text) (cs : List LogCall) : Nat → Text
  | 0 => label
  | k + 1 => ((made cs)[k]?.map Prod.snd).getD []

/-- The level last set on a logger itself. The root has one from the start. -/
def explicit? (level : Option Level) (cs : List LogCall) (j : Nat) : Option Level :=
  (cs.reverse.findSome? (levelFor? j)).or (if j = 0 then some (level.getD (.upTo .info)) else none)

/-- The loggers from one up to the root. -/
inductive Line (cs : List LogCall) : Nat → List Nat → Prop
  | root : Line cs 0 [0]
  | child {k i : Nat} {own : Text} {ks : List Nat} :
      (made cs)[k]? = some (i, own) → Line cs i ks → Line cs (k + 1) ((k + 1) :: ks)

variable {level : Option Level} {label : Text} {cs : List LogCall} {c : LogCall} {i j : Nat} {ks : List Nat}

/-! ## One more call -/

theorem made_concat (cs : List LogCall) (c : LogCall) : made (cs ++ [c]) = made cs ++ c.birth?.toList := by
  rw [made, List.filterMap_append]
  cases h : c.birth? <;> simp [made, h]

theorem made_concat_setLevel (cs : List LogCall) (i : Nat) (l : Level) : made (cs ++ [.setLevel i l]) = made cs :=
  (made_concat cs _).trans (List.append_nil _)

theorem explicit?_concat (level : Option Level) (cs : List LogCall) (c : LogCall) (j : Nat) :
    explicit? level (cs ++ [c]) j = (c.levelFor? j).or (explicit? level cs j) := by
  rw [explicit?, List.reverse_append, List.reverse_singleton, List.singleton_append, List.findSome?_cons]
  cases c.levelFor? j <;> rfl

theorem isSome_explicit?_zero (level : Option Level) (cs : List LogCall) : (explicit? level cs 0).isSome := by
  rw [explicit?, Option.isSome_or]
  exact Bool.or_true _

/-- A level that is set counts for no other logger itself. -/
theorem explicit?_setLevel (level : Option Level) (cs : List LogCall) (i : Nat) (l : Level) :
    explicit? level (cs ++ [.setLevel i l]) = Function.update (explicit? level cs) i (some l) := by
  funext j
  rw [explicit?_concat, levelFor?]
  by_cases h : i = j
  · subst h
    rw [if_pos rfl, Function.update_self]
    rfl
  · rw [if_neg h, Function.update_of_ne (Ne.symm h)]
    rfl

theorem parent?_congr {cs' : List LogCall} (h : made cs' = made cs) : parent? cs' = parent? cs := by
  funext j
  cases j with
  | zero => rfl
  | succ k => rw [parent?, parent?, h]

/-- No logger is below a later one. -/
theorem History.le_of_made (h : History cs) {k : Nat} {own : Text} (hk : (made cs)[k]? = some (i, own)) : i ≤ k := by
  induction h generalizing k with
  | nil => cases hk
  | @concat cs c h hc ih =>
      rw [made_concat, List.getElem?_append] at hk
      split at hk
      · exact ih hk
      · next hlt =>
        cases c with
        | child i' own' =>
            obtain ⟨rfl, -⟩ := Prod.mk.inj (List.mem_singleton.mp (List.mem_of_getElem? hk))
            exact Nat.le_trans hc (Nat.le_of_not_lt hlt)
        | setLevel | log => cases hk

/-- A logger has no level of its own before it is made. -/
theorem History.explicit?_eq_none (h : History cs) (hj : (made cs).length < j) : explicit? level cs j = none := by
  induction h with
  | nil => exact if_neg (Nat.ne_of_gt hj)
  | @concat cs c h hc ih =>
      rw [made_concat, List.length_append] at hj
      have hlt : (made cs).length < j := by omega
      rw [explicit?_concat, ih hlt, Option.or_none]
      cases c with
      | setLevel i l => exact if_neg (Nat.ne_of_lt (Nat.lt_of_le_of_lt hc hlt))
      | child | log => rfl

/-! ## Lines -/

/-- Every logger has a line up to the root. -/
theorem History.exists_line (h : History cs) (hj : j ≤ (made cs).length) : ∃ ks, Line cs j ks := by
  induction j using Nat.strongRecOn with
  | ind j ih =>
      cases j with
      | zero => exact ⟨[0], .root⟩
      | succ k =>
          have hk : (made cs)[k]? = some ((made cs)[k]) := List.getElem?_eq_getElem hj
          have hle := h.le_of_made hk
          obtain ⟨ks, hks⟩ := ih _ (Nat.lt_succ_of_le hle) (Nat.le_trans hle (Nat.le_of_lt hj))
          exact ⟨_, .child hk hks⟩

theorem Line.congr {cs' : List LogCall} (hline : Line cs j ks) (h : made cs' = made cs) : Line cs' j ks := by
  induction hline with
  | root => exact .root
  | child hk _ ih => exact .child (h ▸ hk) ih

theorem Line.unique {ks' : List Nat} (h : Line cs j ks) (h' : Line cs j ks') : ks = ks' := by
  induction h generalizing ks' with
  | root =>
      cases h'
      rfl
  | child hk _ ih =>
      obtain _ | ⟨hk', h'⟩ := h'
      obtain ⟨rfl, -⟩ := Prod.mk.inj (Option.some.inj (hk.symm.trans hk'))
      rw [ih h']

/-- Whether a logger settles what counts at the end of a line: none on the way to it has a level of its own. -/
def Governs (f : Nat → Option Level) (ks : List Nat) (i : Nat) : Prop :=
  ∃ below above, ks = below ++ i :: above ∧ ∀ k ∈ below, f k = none

theorem findSome?_update_of_governs {f : Nat → Option Level} (h : Governs f ks i) (l : Level) :
    ks.findSome? (Function.update f i (some l)) = some l := by
  obtain ⟨below, above, rfl, hbelow⟩ := h
  induction below with
  | nil => rw [List.nil_append, List.findSome?_cons, Function.update_self]
  | cons k below ih =>
      rw [List.forall_mem_cons] at hbelow
      rw [List.cons_append, List.findSome?_cons]
      by_cases hk : k = i
      · rw [hk, Function.update_self]
      · rw [Function.update_of_ne hk, hbelow.1]
        exact ih hbelow.2

theorem findSome?_update_of_not_governs {f : Nat → Option Level} (h : ¬ Governs f ks i) (l : Level) :
    ks.findSome? (Function.update f i (some l)) = ks.findSome? f := by
  induction ks with
  | nil => rfl
  | cons k ks ih =>
      have hk : k ≠ i := fun hk ↦ h ⟨[], ks, congrArg (· :: ks) hk, nofun⟩
      rw [List.findSome?_cons, List.findSome?_cons, Function.update_of_ne hk]
      cases hf : f k with
      | some => rfl
      | none =>
          refine ih fun ⟨below, above, hks, hbelow⟩ ↦ h ⟨k :: below, above, congrArg (k :: ·) hks, ?_⟩
          exact List.forall_mem_cons.mpr ⟨hf, hbelow⟩

end LogCall

end Saltern
