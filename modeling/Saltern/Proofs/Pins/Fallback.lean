import Saltern.Proofs.Config.Resolution
import Saltern.Proofs.Pins.Lookup

/-!
# The environment without the grain

A lookup names the environment of a machine without the grain. That environment is one of those that the lookup
has exactly if the settings, with the defaults for what they leave open, list it: which environments there are and
which of them a machine without the grain is in are settled each by itself.
-/

namespace Saltern.Lookup

variable {pins : Pins} {overrides : Overrides} {env : Text} {e : Environments}

/-- The name in the line that says what holds without the grain. -/
def readFallbackLine? (l : Text) : Option Units := do
  let (name, l) ← readBehind? "default=" l
  if l = [')'] then some name else none

/-- The environment that a lookup's text names for a machine without the grain. -/
def readFallback? (t : Text) : Option Units := (Text.splitOn '\n' t).findSome? readFallbackLine?

theorem readFallbackLine?_of_head? {l : Text} (h : l.head? ≠ some 'd') : readFallbackLine? l = none := by
  have hno : Json.expect? ("default=".toList ++ ['"']) l = none := by
    refine if_neg fun hl ↦ h ?_
    obtain ⟨r, rfl⟩ := List.isPrefixOf_iff_prefix.mp hl
    rfl
  rw [readFallbackLine?, readBehind?, hno]
  rfl

theorem readFallbackLine?_fallback (name : Units) :
    readFallbackLine? ("default=".toList ++ Json.quote name ++ [')']) = some name :=
  congrArg (Option.bind · _) (readBehind?_quote "default=" name [')'])

theorem head?_of_mem_environmentLines : ∀ l ∈ environmentLines pins overrides env, l.head? = some ' ' := by
  intro l hl
  rw [environmentLines, List.mem_append, List.mem_cons, List.mem_map, List.mem_singleton] at hl
  rcases hl with (rfl | ⟨p, -, rfl⟩) | rfl <;> rfl

/-- Of the lines of a lookup, only the one with the environment of a machine without the grain names one. -/
theorem readFallback?_text (pins : Pins) (e : Environments) (overrides : Overrides) :
    readFallback? (text pins e overrides) = some e.fallback.units := by
  have hbefore : (opening :: e.names.flatMap (environmentLines pins overrides) ++
      ["\x7d,".toList, "grain=".toList ++ Json.quote e.grain.units ++ [',']]).findSome? readFallbackLine? = none := by
    simp only [List.findSome?_eq_none_iff, List.forall_mem_append, List.forall_mem_cons]
    refine ⟨⟨readFallbackLine?_of_head? (by decide), fun l hl ↦ readFallbackLine?_of_head? ?_⟩,
      readFallbackLine?_of_head? (by decide), readFallbackLine?_of_head? nofun, nofun⟩
    obtain ⟨env, -, hl⟩ := List.mem_flatMap.mp hl
    rw [head?_of_mem_environmentLines l hl]
    decide
  have hlines : lines pins e overrides ++ [[]] =
      opening :: e.names.flatMap (environmentLines pins overrides) ++
        ["\x7d,".toList, "grain=".toList ++ Json.quote e.grain.units ++ [',']] ++
        ("default=".toList ++ Json.quote e.fallback.units ++ [')']) :: ["%\x7d".toList, []] := by
    rw [lines, List.append_assoc, List.append_assoc]
    rfl
  rw [readFallback?, splitOn_text, hlines, List.findSome?_append, hbefore, Option.none_or, List.findSome?_cons,
    readFallbackLine?_fallback]

open Settings in
/-- What a lookup has for the environment that it names for a machine without the grain: something exactly if that
environment, given or by default, is among the environments, given or by default. -/
theorem fallback_entry_iff {v : Json} {s : Settings} (h : ofJson v = .ok s) (pins : Pins) (overrides : Overrides) :
    ∃ names fallback entries name,
      settled? v ["versionMap", "environments"] = some (.arr names) ∧
      settled? v ["versionMap", "defaultEnvironment"] = some fallback ∧
      read? (text pins s.resolve.environments overrides) = some entries ∧
      readFallback? (text pins s.resolve.environments overrides) = some name ∧
      (name ∈ entries.map Prod.fst ↔ fallback ∈ names) := by
  have hsettled := (ofJson_eq_ok_iff.mp h).2.at?_json_resolve
  refine ⟨_, _, _, _, (hsettled ⟨["versionMap", "environments"], .names⟩ (by decide) (by decide)).symm,
    (hsettled ⟨["versionMap", "defaultEnvironment"], .text⟩ (by decide) (by decide)).symm,
    read?_text _ _ _, readFallback?_text _ _ _, ?_⟩
  rw [List.map_map]
  constructor
  · intro hname
    obtain ⟨env, henv, heq⟩ := List.mem_map.mp hname
    exact List.mem_map.mpr ⟨env, henv, congrArg Json.str heq⟩
  · intro hname
    obtain ⟨env, henv, heq⟩ := List.mem_map.mp hname
    exact List.mem_map.mpr ⟨env, henv, Json.str.inj heq⟩

/-- Where production is listed and nothing else said, it is what holds without the grain. -/
theorem fallback_entry_listed :
    let names : List Json := [.str (Text.units "qa"), .str (Text.units "prod")]
    let v : Json := .obj [(Text.units "versionMap", .obj [(Text.units "environments", .arr names)])]
    let nginx : Pins := Table.empty.set (Text.units "web.nginx") (Text.units "1.24")
    ∃ s, Settings.ofJson v = .ok s ∧ ∃ entries,
      read? (text nginx s.resolve.environments .empty) = some entries ∧
      readFallback? (text nginx s.resolve.environments .empty) = some (Text.units "prod") ∧
      Text.units "prod" ∈ entries.map Prod.fst := by
  intro names v nginx
  have hv : Settings.ofJson v =
      .ok { Settings.none with environments := some ⟨some ["qa", "prod"], none, none⟩ } := rfl
  obtain ⟨_, _, entries, name, hnames, hfallback, hentries, hname, hiff⟩ := fallback_entry_iff hv nginx .empty
  obtain rfl := Json.arr.inj (Option.some.inj hnames)
  obtain rfl := Option.some.inj hfallback
  obtain rfl := Option.some.inj (hname.symm.trans (readFallback?_text _ _ _))
  exact ⟨_, hv, entries, hentries, hname, hiff.mpr (List.mem_cons_of_mem _ List.mem_cons_self)⟩

/-- Where another environment is listed and nothing else said, what is named is production, and nothing is there. -/
theorem fallback_entry_missing :
    let names : List Json := [.str (Text.units "qa")]
    let v : Json := .obj [(Text.units "versionMap", .obj [(Text.units "environments", .arr names)])]
    let nginx : Pins := Table.empty.set (Text.units "web.nginx") (Text.units "1.24")
    ∃ s, Settings.ofJson v = .ok s ∧ ∃ entries,
      read? (text nginx s.resolve.environments .empty) = some entries ∧
      readFallback? (text nginx s.resolve.environments .empty) = some (Text.units "prod") ∧
      Text.units "prod" ∉ entries.map Prod.fst :=
  ⟨{ Settings.none with environments := some ⟨some ["qa"], none, none⟩ }, rfl, _, read?_text _ _ _,
    readFallback?_text _ _ _, by decide⟩

end Saltern.Lookup
