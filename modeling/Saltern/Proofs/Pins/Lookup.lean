import Saltern.Pins.Lookup
import Saltern.Proofs.Json.Strings
import Saltern.Proofs.Pins.Store

/-!
# The lookup read back

The lines of a lookup file are read one after the other: the name of an environment, its pins, and
the brace that ends it. What is read from the text of a lookup is what every environment has.
-/

namespace Saltern

namespace Json

theorem expect?_append (word t : Text) : expect? word (word ++ t) = some t := by
  rw [expect?, if_pos (List.isPrefixOf_iff_prefix.mpr (List.prefix_append word t)), List.drop_left]

end Json

namespace Lookup

/-- The pins of an environment as they stand in a lookup, under its name. -/
abbrev Entry := Units × List (Units × Units)

/-- The string whose literal stands behind a text, and what stands behind the literal. -/
def readBehind? (before l : Text) : Option (Units × Text) :=
  (Json.expect? (before ++ ['"']) l).bind Json.readString

/-- The key and the version of a pin's line. -/
def readPin? (l : Text) : Option (Units × Units) := do
  let (key, l) ← readBehind? "        " l
  let (version, l) ← readBehind? ": " l
  if l = [','] then some (key, version) else none

/-- The name in the first line of an environment. -/
def readName? (l : Text) : Option Units := do
  let (name, l) ← readBehind? "    " l
  if l = ": \x7b".toList then some name else none

/-- The environments of some lines, one of them perhaps begun. -/
def readEntries? : Option Entry → List Text → Option (List Entry)
  | _, [] => none
  | none, l :: ls =>
    if l = "\x7d,".toList then some [] else (readName? l).bind fun name ↦ readEntries? (some (name, [])) ls
  | some (name, pins), l :: ls =>
    if l = environmentEnd then (readEntries? none ls).map ((name, pins) :: ·)
    else (readPin? l).bind fun p ↦ readEntries? (some (name, pins ++ [p])) ls

/-- The environments of a lookup's text, read line by line. -/
def read? (t : Text) : Option (List Entry) :=
  match Text.splitOn '\n' t with
  | [] => none
  | l :: ls => if l = opening then readEntries? none ls else none

variable {pins : Pins} {overrides : Overrides} {env : Text} {e : Environments} {k : Units}

/-! ## Lines -/

theorem readBehind?_quote (before : Text) (s : Units) (r : Text) :
    readBehind? before (before ++ Json.quote s ++ r) = some (s, r) := by
  obtain ⟨body, hbody, hread⟩ := Json.readString_quote s r
  rw [readBehind?, List.append_assoc, hbody, List.append_cons before '"' body, Json.expect?_append,
    Option.bind_some, hread]

theorem readPin?_pinLine (p : Units × Units) : readPin? (pinLine p) = some p := by
  have hkey := readBehind?_quote "        " p.1 (": ".toList ++ Json.quote p.2 ++ [','])
  have hversion := readBehind?_quote ": " p.2 [',']
  have hline : pinLine p =
      "        ".toList ++ Json.quote p.1 ++ ": ".toList ++ Json.quote p.2 ++ [','] := rfl
  rw [readPin?, hline, List.append_assoc _ _ (Json.quote p.2), List.append_assoc _ _ [','], hkey]
  change (readBehind? ": " (": ".toList ++ Json.quote p.2 ++ [','])).bind _ = some p
  rw [hversion]
  rfl

theorem readName?_name (name : Units) :
    readName? ("    ".toList ++ Json.quote name ++ ": \x7b".toList) = some name :=
  congrArg (Option.bind · _) (readBehind?_quote "    " name ": \x7b")

theorem pinLine_ne_environmentEnd (p : Units × Units) : pinLine p ≠ environmentEnd := by
  intro h
  have hfifth : (pinLine p)[4]? = some ' ' := rfl
  rw [h] at hfifth
  exact absurd hfifth (by decide)

theorem isLine_pinLine (p : Units × Units) : Text.IsLine (pinLine p) :=
  .append (.append (.append (.append (by decide) (Json.isLine_quote p.1)) (by decide))
    (Json.isLine_quote p.2)) (by decide)

theorem isLine_of_mem_environmentLines : ∀ l ∈ environmentLines pins overrides env, Text.IsLine l := by
  intro l hl
  rw [environmentLines, List.mem_append, List.mem_cons, List.mem_map, List.mem_singleton] at hl
  rcases hl with (rfl | ⟨p, -, rfl⟩) | rfl
  · exact .append (.append (by decide) (Json.isLine_quote env.units)) (by decide)
  · exact isLine_pinLine p
  · decide

theorem isLine_of_mem_closing : ∀ l ∈ closing e, Text.IsLine l := by
  have hgrain : Text.IsLine ("grain=".toList ++ Json.quote e.grain.units ++ [',']) :=
    .append (.append (by decide) (Json.isLine_quote e.grain.units)) (by decide)
  have hfallback : Text.IsLine ("default=".toList ++ Json.quote e.fallback.units ++ [')']) :=
    .append (.append (by decide) (Json.isLine_quote e.fallback.units)) (by decide)
  refine List.forall_mem_cons.mpr ⟨by decide, ?_⟩
  exact List.forall_mem_cons.mpr ⟨hgrain, List.forall_mem_cons.mpr ⟨hfallback, by decide⟩⟩

theorem isLine_of_mem_lines : ∀ l ∈ lines pins e overrides, Text.IsLine l := by
  intro l hl
  rw [lines, List.mem_append, List.mem_cons, List.mem_flatMap] at hl
  rcases hl with (rfl | ⟨env, -, hl⟩) | hl
  · decide
  · exact isLine_of_mem_environmentLines l hl
  · exact isLine_of_mem_closing l hl

/-! ## Environments -/

/-- The pins of an environment are read up to the brace that ends it. -/
theorem readEntries?_pins (name : Units) (before ps : List (Units × Units)) (rest : List Text) :
    readEntries? (some (name, before)) (ps.map pinLine ++ environmentEnd :: rest) =
      (readEntries? none rest).map ((name, before ++ ps) :: ·) := by
  induction ps generalizing before with
  | nil => rw [List.map_nil, List.nil_append, readEntries?, if_pos rfl, List.append_nil]
  | cons p ps ih =>
      rw [List.map_cons, List.cons_append, readEntries?, if_neg (pinLine_ne_environmentEnd p),
        readPin?_pinLine, Option.bind_some, ih, List.append_assoc, List.singleton_append]

/-- What an environment has, under its name. -/
def entry (pins : Pins) (overrides : Overrides) (env : Text) : Entry :=
  (env.units, (pins.inEnvironment overrides env).entries)

theorem readEntries?_environments (names rest : List Text) :
    readEntries? none (names.flatMap (environmentLines pins overrides) ++ "\x7d,".toList :: rest) =
      some (names.map (entry pins overrides)) := by
  induction names with
  | nil => rfl
  | cons env names ih =>
      have hname : "    ".toList ++ Json.quote env.units ++ ": \x7b".toList ≠ "\x7d,".toList := nofun
      rw [List.flatMap_cons, environmentLines, List.append_assoc, List.append_assoc, List.cons_append,
        readEntries?, if_neg hname, readName?_name, Option.bind_some, List.singleton_append,
        readEntries?_pins, ih]
      rfl

/-- The text of a lookup, cut at its line ends. -/
theorem splitOn_text (pins : Pins) (e : Environments) (overrides : Overrides) :
    Text.splitOn '\n' (text pins e overrides) = lines pins e overrides ++ [[]] := by
  have hne : lines pins e overrides ≠ [] := List.append_ne_nil_of_left_ne_nil (List.cons_ne_nil _ _) _
  rw [text, Text.splitOn_append_sep, Text.splitOn_joinWith hne isLine_of_mem_lines]
  rfl

/-- What is read from the text of a lookup is what every environment has, in their order. -/
theorem read?_text (pins : Pins) (e : Environments) (overrides : Overrides) :
    read? (text pins e overrides) = some (e.names.map (entry pins overrides)) := by
  rw [read?, splitOn_text, lines, List.append_assoc, List.cons_append]
  exact (if_pos rfl).trans (readEntries?_environments e.names _)

end Lookup

/-- In an environment its own versions come before the common ones. -/
theorem Pins.get?_inEnvironment (pins : Pins) (overrides : Overrides) (env : Text) (k : Units) :
    (pins.inEnvironment overrides env).get? k =
      ((overrides.get? env.units).bind (·.get? k)).or (pins.get? k) := by
  rw [inEnvironment, Table.get?_sorted]
  cases overrides.get? env.units with
  | none => rfl
  | some own => exact Table.get?_setAll_entries pins own k

/-- An environment's pins depend on nothing but what is pinned. -/
theorem PinStore.Alike.inEnvironment {s s' : PinStore} (h : Alike s s') (env : Text) :
    Pins.inEnvironment s.pins.sorted s.overrides env =
      Pins.inEnvironment s'.pins.sorted s'.overrides env := by
  refine Table.eq_of_pairwise_keys (Table.pairwise_keys_sorted _) (Table.pairwise_keys_sorted _) fun k ↦ ?_
  rw [Pins.get?_inEnvironment, Pins.get?_inEnvironment, Table.sorted_congr h.pins]
  exact congrArg (Option.or · _) (h.overrides env.units k)

/-- Nor does the lookup. -/
theorem PinStore.Alike.lookupText {s s' : PinStore} (h : Alike s s') (e : Environments) :
    Lookup.text s.pins.sorted e s.overrides = Lookup.text s'.pins.sorted e s'.overrides := by
  have hlines : Lookup.environmentLines s.pins.sorted s.overrides =
      Lookup.environmentLines s'.pins.sorted s'.overrides := by
    funext env
    rw [Lookup.environmentLines, Lookup.environmentLines, h.inEnvironment env]
  rw [Lookup.text, Lookup.text, Lookup.lines, Lookup.lines, hlines]

end Saltern
