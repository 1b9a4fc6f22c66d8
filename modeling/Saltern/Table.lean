import Saltern.Text.Units

/-!
# Ordered tables

A table holds one value per key and remembers the order in which the keys first came: writing a key
again keeps its place and takes the new value.
-/

namespace Saltern

/-- Values by key, in the order of the keys' first appearance. -/
structure Table (κ α : Type) where
  entries : List (κ × α)
  nodup : (entries.map Prod.fst).Nodup

namespace Table

variable {κ α : Type} [DecidableEq κ]

/-- The value at a key in a list of entries. -/
def lookup (k : κ) : List (κ × α) → Option α
  | [] => none
  | e :: r => if e.1 = k then some e.2 else lookup k r

/-- A list of entries with a value written at a key. -/
def write (k : κ) (v : α) : List (κ × α) → List (κ × α)
  | [] => [(k, v)]
  | e :: r => if e.1 = k then (k, v) :: r else e :: write k v r

theorem map_fst_write (k : κ) (v : α) (es : List (κ × α)) :
    (write k v es).map Prod.fst =
      if k ∈ es.map Prod.fst then es.map Prod.fst else es.map Prod.fst ++ [k] := by
  induction es with
  | nil => rfl
  | cons e r ih =>
    unfold write
    by_cases h : e.1 = k
    · simp [h]
    · have hk : ¬ k = e.1 := fun hc ↦ h hc.symm
      simp only [if_neg h, List.map_cons, ih, List.mem_cons, hk, false_or]
      split <;> simp

theorem lookup_write (k : κ) (v : α) (es : List (κ × α)) (j : κ) :
    lookup j (write k v es) = if k = j then some v else lookup j es := by
  induction es with
  | nil => rfl
  | cons e r ih =>
    unfold write
    by_cases h : e.1 = k
    · by_cases hj : k = j
      · simp [h, lookup, hj]
      · have : ¬ e.1 = j := fun hc ↦ hj (h ▸ hc)
        simp [h, lookup, hj]
    · rw [if_neg h, lookup, lookup, ih]
      by_cases hj : k = j
      · subst hj
        simp [h]
      · simp [hj]

theorem nodup_write {k : κ} {v : α} {es : List (κ × α)} (h : (es.map Prod.fst).Nodup) :
    ((write k v es).map Prod.fst).Nodup := by
  rw [map_fst_write]
  split
  · exact h
  · next hk =>
    refine List.nodup_append.mpr ⟨h, by simp, ?_⟩
    rintro a ha b hb rfl
    exact hk (List.mem_singleton.mp hb ▸ ha)

def empty : Table κ α := ⟨[], .nil⟩

def keys (t : Table κ α) : List κ := t.entries.map Prod.fst

def size (t : Table κ α) : Nat := t.entries.length

def isEmpty (t : Table κ α) : Bool := t.entries.isEmpty

def get? (t : Table κ α) (k : κ) : Option α := lookup k t.entries

def set (t : Table κ α) (k : κ) (v : α) : Table κ α := ⟨write k v t.entries, nodup_write t.nodup⟩

/-- A table with several entries written one after the other. -/
def setAll (t : Table κ α) (es : List (κ × α)) : Table κ α := es.foldl (fun t e ↦ t.set e.1 e.2) t

/-- The table of a list of entries; of two entries with one key the later counts. -/
def ofList (es : List (κ × α)) : Table κ α := empty.setAll es

/-- A table without the entries that fail a test. -/
def filter (t : Table κ α) (p : κ × α → Bool) : Table κ α :=
  ⟨t.entries.filter p, t.nodup.sublist (List.filter_sublist.map _)⟩

/-- A table of strings with its keys in the order of their units. -/
def sorted (t : Table Units α) : Table Units α :=
  ⟨t.entries.mergeSort fun a b ↦ Units.precede a.1 b.1,
    ((List.mergeSort_perm ..).map _).nodup_iff.mpr t.nodup⟩

@[simp] theorem get?_empty (k : κ) : (empty : Table κ α).get? k = none := rfl

theorem get?_set (t : Table κ α) (k : κ) (v : α) (j : κ) :
    (t.set k v).get? j = if k = j then some v else t.get? j := lookup_write k v t.entries j

@[simp] theorem setAll_nil (t : Table κ α) : t.setAll [] = t := rfl

@[simp] theorem setAll_cons (t : Table κ α) (e : κ × α) (es : List (κ × α)) :
    t.setAll (e :: es) = (t.set e.1 e.2).setAll es := rfl

end Table

end Saltern
