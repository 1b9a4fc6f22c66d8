import Saltern.Proofs.Jinja.Quoting
import Saltern.Proofs.Project.Planning

/-!
# Keys as literals

The manifest asks for a version by a key, and the lookup has versions under keys. The one writes its keys with
nothing but the quotes escaped, the other writes them as strings of JSON. As long as every backslash of a key
stays, both are literals that denote the key; with any other backslash, the one in the manifest is not.
-/

namespace Saltern

/-- How the files of a plan spell the key of a package: the manifest has a state that asks for the version
under one literal, and the lookup has another in front of a version in every environment. -/
structure Plan.Spells (p : Plan) (c : Config) (i : Item) (inManifest inLookup : Text) : Prop where
  manifest : ∃ a ∈ p.files, a.kind = .manifest ∧ ∃ s : Stanza, s.text <:+: a.text ∧
    s.params = [param "name" (Yaml.scalar i.target),
      param "version" ("\x7b\x7b versions[" ++ inManifest ++ "] \x7d\x7d"), param "refresh" "True"]
  lookup : ∃ a ∈ p.files, a.kind = .pinLookup ∧ ∃ sections : List (List Text),
    Text.splitOn '\n' a.text =
        Lookup.opening :: sections.flatten ++ Lookup.closing c.environments ++ [[]] ∧
      List.Forall₂ (fun env ls ↦ ls.head? = some ("    " ++ Json.quote env.units ++ ": \x7b") ∧
        ∃ version, "        " ++ inLookup ++ ": " ++ version ++ [','] ∈ ls) c.environments.names sections

namespace Setup

theorem versionLookup_eq (s : Setup) (package : Text) : s.versionLookup package =
    "\x7b\x7b versions[".toList ++ Jinja.singleQuoted (pinKey s.name package) ++ "] \x7d\x7d".toList := by
  have hopening : "\x7b\x7b versions['".toList = "\x7b\x7b versions[".toList ++ ['\''] := by decide
  have hclosing : "'] \x7d\x7d".toList = ['\''] ++ "] \x7d\x7d".toList := by decide
  unfold versionLookup Jinja.singleQuoted Jinja.escaped
  generalize Text.replaceChar '\'' ['\\', '\''] (pinKey s.name package) = body
  simp only [hopening, hclosing, List.append_assoc, List.cons_append, List.nil_append]

/-- A state of a package that is to be there in some version. -/
theorem package_of_isPinned (s : Setup) {i : Item} (h : i.isPinned = true) :
    (s.package i.target i.state).params = [param "name" (Yaml.scalar i.target),
      param "version" (s.versionLookup i.target), param "refresh" "True"] := by
  rw [Item.isPinned, Item.value?] at h
  rcases hstate : i.state with (_ | version) | _
  · rw [hstate] at h
    cases h
  · rfl
  · rw [hstate] at h
    cases h

end Setup

namespace Document

variable {d : Document} {root : Path} {c : Config} {t : FileTree} {p : Plan} {i : Item} {bs : List Block}
  {o : ManifestOptions} {named : Text → Option Char}

/-- Each package has a state in the manifest that is made of a document's blocks. -/
theorem exists_stanza (h : d.blocks o = .ok bs) (hi : i ∈ d.packages) :
    ∃ s : Stanza, s.text <:+: manifestText (bs.map (·.text)) ∧
      s.params = ((d.setup o).package i.target i.state).params := by
  obtain ⟨ss, hmem, hparams⟩ := exists_package_stanzas h (List.ne_nil_of_mem hi)
  have hdeclared : ((d.setup o).package i.target i.state).params ∈ ss.map (·.params) := by
    rw [hparams]
    exact List.mem_map_of_mem hi
  obtain ⟨s, hs, hsame⟩ := List.mem_map.mp hdeclared
  have hstanza : s.text <:+: Text.joinWith ['\n', '\n'] (Concern.packages.banner :: ss.map Stanza.text) :=
    Text.isInfix_joinWith (List.mem_cons_of_mem _ (List.mem_map_of_mem hs))
  refine ⟨s, hstanza.trans (List.IsInfix.trans (Text.isInfix_joinWith ?_) (List.prefix_append ..).isInfix), hsame⟩
  exact List.mem_map.mpr ⟨_, hmem, rfl⟩

/-- In the lookup that is made from a store and a document's own pins, every environment has a line for the
key of a pinned package. -/
theorem exists_pinLine (s : PinStore) (env : Text) (hi : i ∈ d.packages) (hpinned : i.isPinned = true) :
    ∃ version, Lookup.pinLine (d.keyOf i, version) ∈
      Lookup.environmentLines (s.merge d.pins.entries).pins.sorted s.overrides env := by
  have hkey := ((d.layered_entry s env).mem_keys_iff _).mpr (.inr (.inl ⟨i, hi, hpinned, rfl⟩))
  obtain ⟨e, he, hsame⟩ := List.mem_map.mp hkey
  refine ⟨e.2, ?_⟩
  rw [← hsame, Lookup.environmentLines, List.mem_append]
  exact .inl (List.mem_cons_of_mem _ (List.mem_map_of_mem he))

/-- Where a plan is made, the lookup spells the key of every pinned package as a literal that denotes it, and
the manifest does so exactly where every backslash of the key stays. -/
theorem plan_spells (named : Text → Option Char) (h : (d.plan root c t).result = .ok p) (hi : i ∈ d.packages)
    (hpinned : i.isPinned = true) :
    let key := pinKey d.name i.target
    p.Spells c i (Jinja.singleQuoted key) (Json.quote key.units) ∧ ∀ rest,
      Jinja.literal? named (Json.quote key.units ++ rest) = some (key, rest) ∧
      (Jinja.literal? named (Jinja.singleQuoted key ++ rest) = some (key, rest) ↔ Jinja.Inert key) := by
  intro key
  refine ⟨?_, fun rest ↦ ⟨Jinja.literal?_quote named key rest, Jinja.literal?_singleQuoted_iff named key rest⟩⟩
  obtain ⟨blocks, manifest, readme, files, hblocks, hpins⟩ := exists_of_plan_ok h
  obtain ⟨s, hs, hparams⟩ := exists_stanza hblocks hi
  rw [Setup.package_of_isPinned _ hpinned, Setup.versionLookup_eq] at hparams
  have hsome : d.pins.isEmpty = false := d.isPinned_iff_pins.mp (List.any_eq_true.mpr ⟨i, hi, hpinned⟩)
  rcases hpins with ⟨hempty, -⟩ | ⟨-, maps, store, -, -, rfl⟩
  · rw [hsome] at hempty
    cases hempty
  · constructor
    · exact ⟨_, List.mem_cons_self, rfl, s, hs, hparams⟩
    · refine ⟨_, List.mem_append_right _ (List.mem_cons_of_mem _ List.mem_cons_self), rfl,
        c.environments.names.map
          (Lookup.environmentLines (store.merge d.pins.entries).pins.sorted store.overrides), ?_, ?_⟩
      · exact Lookup.splitOn_text _ _ _
      · rw [List.forall₂_map_right_iff, List.forall₂_same]
        intro env _
        obtain ⟨version, hline⟩ := exists_pinLine store env hi hpinned
        exact ⟨rfl, Json.quote version, hline⟩

/-- A package with a quote and a backslash in its name that makes no escape. -/
theorem plan_spells_quote_and_backslash :
    let i : Item := ⟨.package, "it's\\d", .present (some "1"), 8⟩
    let d : Document := ⟨.role, "web", "d", none, [], .empty, [i], [], [], [], [], [], [], []⟩
    let key : Text := "web.it's\\d"
    let inManifest : Text := "'web.it\\'s\\d'"
    let inLookup : Text := "\"web.it's\\\\d\""
    ∃ p, (d.plan .top .default .empty).result = .ok p ∧ p.Spells .default i inManifest inLookup ∧
      ∀ named rest, Jinja.literal? named (inLookup ++ rest) = some (key, rest) ∧
        Jinja.literal? named (inManifest ++ rest) = some (key, rest) := by
  intro i d key inManifest inLookup
  have hkey : pinKey d.name i.target = key := by decide +kernel
  have hmanifest : Jinja.singleQuoted key = inManifest := by decide +kernel
  have hlookup : Json.quote key.units = inLookup := by decide +kernel
  have hread : Jinja.literal? (fun _ ↦ none) (Jinja.singleQuoted key ++ []) = some (key, []) := by decide +kernel
  have hinert : Jinja.Inert key := (Jinja.literal?_singleQuoted_iff _ key []).mp hread
  have hmade : (d.plan .top .default .empty).result.isOk = true := by decide +kernel
  cases h : (d.plan .top .default .empty).result with
  | error e =>
      rw [h] at hmade
      cases hmade
  | ok p =>
      have hspells := fun named ↦ plan_spells named h List.mem_cons_self rfl
      simp only [hkey, hmanifest, hlookup] at hspells
      exact ⟨p, rfl, (hspells fun _ ↦ none).1, fun named rest ↦
        ⟨((hspells named).2 rest).1, ((hspells named).2 rest).2.mpr hinert⟩⟩

/-- A package with a backslash in front of a quote. The quote is escaped and the backslash is not, so the
literal in the manifest ends at the quote. -/
theorem plan_spells_backslash_before_quote :
    let read := Document.ofText "%rolename\nr\n%description\nd\n%packages\na\\'b=1\n"
    let key : Text := "r.a\\'b"
    let line : Text := "\n    - version: \x7b\x7b versions['r.a\\\\'b'] \x7d\x7d\n"
    read.toOption.map (fun d ↦ d.packages.map fun i ↦ (i.isPinned, pinKey d.name i.target)) =
        some [(true, key)] ∧
      (read.toOption.bind fun d ↦ (d.manifest Config.default.manifestOptions).toOption).map (Text.holds line) =
        some true ∧
      Jinja.literal? (fun _ ↦ none) "'r.a\\\\'b'] \x7d\x7d".toList =
        some ("r.a\\".toList, "b'] \x7d\x7d".toList) ∧
      Jinja.literal? (fun _ ↦ none) (Json.quote key.units) = some (key, []) := by
  intro read key line
  refine ⟨?_, ?_, ?_, ?_⟩ <;> decide +kernel

end Document

end Saltern
