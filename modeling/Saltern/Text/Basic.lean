/-!
# Text

A text is a list of characters: every rule of this library is a function on such lists, and
`String` is met only where text is read or written.
-/

namespace Saltern

/-- A text, character by character. -/
abbrev Text := List Char

/-- A literal stands for its characters. -/
instance : Coe String Text := ⟨String.toList⟩

namespace Text

/-- Put a character in front of the first of some pieces. -/
def consHead (c : Char) : List Text → List Text
  | [] => [[c]]
  | p :: ps => (c :: p) :: ps

/-- The pieces between the places where a character stands. There is always one. -/
def splitOn (sep : Char) : Text → List Text
  | [] => [[]]
  | c :: r => if c = sep then [] :: splitOn sep r else consHead c (splitOn sep r)

/-- The pieces put together again, with a separator between neighbours. -/
def joinWith (sep : Text) : List Text → Text
  | [] => []
  | [t] => t
  | t :: u :: ts => t ++ sep ++ joinWith sep (u :: ts)

/-- The texts before and after the first place where a character stands. -/
def cutAt (sep : Char) : Text → Option (Text × Text)
  | [] => none
  | c :: r => if c = sep then some ([], r) else (cutAt sep r).map fun (a, b) ↦ (c :: a, b)

/-- Whether a text starts with another. -/
def startsWith (t head : Text) : Bool := head.isPrefixOf t

/-- Whether a text holds another somewhere. -/
def holds (part : Text) : Text → Bool
  | [] => part.isEmpty
  | c :: r => part.isPrefixOf (c :: r) || holds part r

/-- Drop the longest stretch at the end whose characters all satisfy `p`. -/
def dropEndWhile (p : Char → Bool) : Text → Text
  | [] => []
  | c :: r =>
    match dropEndWhile p r with
    | [] => if p c then [] else [c]
    | r' => c :: r'

/-- The longest stretches whose characters all satisfy `p`, in order. -/
def runs (p : Char → Bool) : Text → List Text
  | [] => []
  | [c] => if p c then [[c]] else []
  | c :: d :: r =>
    if p c then (if p d then consHead c (runs p (d :: r)) else [c] :: runs p (d :: r))
    else runs p (d :: r)

/-- Write each occurrence of a character as a text. -/
def replaceChar (c : Char) (instead : Text) (t : Text) : Text :=
  t.flatMap fun d ↦ if d = c then instead else [d]

/-- Texts without the empty ones at either edge. -/
def trimEmptyEdges (ts : List Text) : List Text :=
  ((ts.dropWhile List.isEmpty).reverse.dropWhile List.isEmpty).reverse

@[simp] theorem splitOn_nil (sep : Char) : splitOn sep [] = [[]] := rfl

@[simp] theorem joinWith_nil (sep : Text) : joinWith sep [] = [] := rfl

@[simp] theorem joinWith_singleton (sep t : Text) : joinWith sep [t] = t := rfl

@[simp] theorem joinWith_cons_cons (sep t u : Text) (ts : List Text) :
    joinWith sep (t :: u :: ts) = t ++ sep ++ joinWith sep (u :: ts) := rfl

@[simp] theorem dropEndWhile_nil (p : Char → Bool) : dropEndWhile p [] = [] := rfl

theorem splitOn_ne_nil (sep : Char) (t : Text) : splitOn sep t ≠ [] := by
  induction t with
  | nil => simp
  | cons c r ih =>
    unfold splitOn
    split
    · simp
    · cases h : splitOn sep r with
      | nil => exact absurd h ih
      | cons p ps => simp [consHead]

theorem joinWith_consHead (sep : Text) (c : Char) (p : Text) (ps : List Text) :
    joinWith sep (consHead c (p :: ps)) = c :: joinWith sep (p :: ps) := by
  cases ps <;> simp [consHead]

/-- Splitting loses nothing but the separators. -/
theorem joinWith_splitOn (sep : Char) (t : Text) : joinWith [sep] (splitOn sep t) = t := by
  induction t with
  | nil => rfl
  | cons c r ih =>
    obtain ⟨p, ps, h⟩ := List.exists_cons_of_ne_nil (splitOn_ne_nil sep r)
    unfold splitOn
    split
    · next hc => simp [h ▸ ih, hc, h]
    · rw [h, joinWith_consHead, ← h, ih]

end Text

end Saltern
