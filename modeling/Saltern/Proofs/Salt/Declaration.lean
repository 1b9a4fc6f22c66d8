import Saltern.Proofs.Salt.StateId
import Saltern.Proofs.Text.OneLine
import Saltern.Proofs.Text.WordList
import Saltern.Salt.Manifest

/-!
# Well-formed declarations

The id that a declaration wants is made of letters, digits and underscores, and all it says fits on
one line each, whatever the document's texts of one line are.
-/

namespace Saltern

open Text

/-! ## Characters of ids -/

/-- Whether a character may stand in a state id. -/
def isIdChar (c : Char) : Bool := c.isAlphanum || c = '_'

/-- Letters, digits and underscores. -/
def IsId (t : Text) : Prop := ∀ c ∈ t, isIdChar c = true

instance (t : Text) : Decidable (IsId t) := List.decidableBAll (fun c ↦ isIdChar c = true) t

@[simp] theorem isId_append {t u : Text} : IsId (t ++ u) ↔ IsId t ∧ IsId u := by
  simp only [IsId, List.mem_append, or_imp, forall_and]

@[simp] theorem isId_cons {c : Char} {t : Text} : IsId (c :: t) ↔ isIdChar c = true ∧ IsId t :=
  List.forall_mem_cons

theorem IsId.isLine {t : Text} (h : IsId t) : IsLine t := fun hn ↦ absurd (h _ hn) (by decide)

theorem isId_slug (t : Text) : IsId (slug t) := by
  unfold slug
  split
  · decide
  · intro c hc
    rcases mem_joinWith hc with hc | ⟨w, hw, hc⟩
    · rw [List.mem_singleton.mp hc]
      rfl
    · simp [isIdChar, forall_mem_runs hw c hc]

theorem isId_numeral (n : Nat) : IsId (numeral n) := by
  intro c hc
  have hdigit : c.isDigit = true := Nat.isDigit_of_mem_toDigits (by decide) (by decide) hc
  simp [isIdChar, Char.isAlphanum, hdigit]

/-- An id with a number behind it is an id. -/
theorem StateIds.IssuedFor.isId {w id : Text} (h : IssuedFor w id) (hw : IsId w) : IsId id := by
  rcases h with rfl | ⟨k, -, rfl⟩
  · exact hw
  · rw [numbered, isId_append, isId_cons]
    exact ⟨hw, rfl, isId_numeral k⟩

/-! ## Scalars of one line -/

theorem Text.IsLine.quote {t : Text} (h : IsLine t) : IsLine (Yaml.quote t) := by
  have hbody : IsLine (replaceChar '\'' ['\'', '\''] t) := by
    intro hn
    obtain ⟨c, hc, hn⟩ := List.mem_flatMap.mp hn
    split at hn
    · simp at hn
    · exact h (List.mem_singleton.mp hn ▸ hc)
  simp [Yaml.quote, hbody]

theorem Text.IsLine.scalar {t : Text} (h : IsLine t) : IsLine (Yaml.scalar t) := by
  unfold Yaml.scalar
  split
  · exact h
  · exact h.quote

/-! ## Declarations -/

/-- Options without line feeds. -/
structure ManifestOptions.OneLine (o : ManifestOptions) : Prop where
  filesDir : IsLine o.filesDir
  mapsDir : IsLine o.mapsDir
  user : IsLine o.owner.user
  group : IsLine o.owner.group
  cronUser : IsLine o.cronUser

/-- A setting without line feeds. -/
structure Setup.OneLine (s : Setup) : Prop where
  name : IsLine s.name
  statePath : IsLine s.statePath
  options : s.options.OneLine

/-- Parameters without line feeds. -/
def OneLineParams (ps : List (Text × Text)) : Prop := ∀ p ∈ ps, IsLine p.1 ∧ IsLine p.2

theorem OneLineParams.nil : OneLineParams [] := nofun

/-- Keys are literals, and so are the functions and the kinds below: they are evaluated. -/
theorem OneLineParams.cons {key value : Text} {ps : List (Text × Text)}
    (hk : key.all (· != '\n') = true) (hv : IsLine value) (h : OneLineParams ps) :
    OneLineParams (param key value :: ps) :=
  List.forall_mem_cons.mpr ⟨⟨.of_all hk, hv⟩, h⟩

theorem OneLineParams.append {ps qs : List (Text × Text)} (hp : OneLineParams ps)
    (hq : OneLineParams qs) : OneLineParams (ps ++ qs) :=
  List.forall_mem_append.mpr ⟨hp, hq⟩

/-- A declaration that wants an id and says each thing on one line. -/
structure Declaration.WellFormed (d : Declaration) : Prop where
  wanted : IsId d.wanted
  function : IsLine d.function
  params : OneLineParams d.params

theorem Declaration.WellFormed.of {wanted function : Text} {params : List (Text × Text)}
    (hw : IsId wanted) (hf : function.all (· != '\n') = true) (hp : OneLineParams params) :
    WellFormed ⟨wanted, function, params⟩ := ⟨hw, .of_all hf, hp⟩

/-- A schedule without line feeds. -/
def Schedule.OneLine : Schedule → Prop
  | .fields minute hour dayOfMonth month dayOfWeek =>
    IsLine minute ∧ IsLine hour ∧ IsLine dayOfMonth ∧ IsLine month ∧ IsLine dayOfWeek
  | .special name => IsLine name

/-- An item's state without line feeds. -/
def ItemState.OneLine (state : ItemState) : Prop := ∀ value, state = .present (some value) → IsLine value

theorem ItemState.OneLine.absent : OneLine .absent := by
  intro _ h
  cases h

theorem ItemState.OneLine.unvalued : OneLine (.present none) := by
  intro _ h
  cases h

theorem ItemState.OneLine.getD {value : Option Text} {default : Text} (h : OneLine (.present value))
    (hd : IsLine default) : IsLine (value.getD default) := by
  cases value with
  | none => exact hd
  | some v => exact h v rfl

namespace Setup

variable {s : Setup} {target value : Text} {state : ItemState}

theorem isId_wantedId (s : Setup) (thing : Text) {kind : Text} (hk : kind.all isIdChar = true) :
    IsId (s.wantedId thing kind) := by
  have h : IsId kind := List.all_eq_true.mp hk
  rw [wantedId, List.append_assoc]
  simp [isId_slug, h, isIdChar]

theorem isId_wantedActionId (s : Setup) {action : Text} (thing : Text) {kind : Text}
    (ha : action.all isIdChar = true) (hk : kind.all isIdChar = true) :
    IsId (s.wantedActionId action thing kind) := by
  rw [wantedActionId, isId_append, isId_cons]
  exact ⟨List.all_eq_true.mp ha, rfl, s.isId_wantedId thing hk⟩

theorem OneLine.ownership (h : s.OneLine) : OneLineParams s.ownership :=
  .cons rfl h.options.user.scalar (.cons rfl h.options.group.scalar .nil)

theorem OneLine.versionLookup (h : s.OneLine) (ht : IsLine target) : IsLine (s.versionLookup target) := by
  have hpin : IsLine (pinKey s.name target) := .append h.name (isLine_cons.mpr ⟨by decide, ht⟩)
  have hkey : IsLine (replaceChar '\'' ['\\', '\''] (pinKey s.name target)) := by
    intro hn
    obtain ⟨c, hc, hn⟩ := List.mem_flatMap.mp hn
    split at hn
    · simp at hn
    · exact hpin (List.mem_singleton.mp hn ▸ hc)
  exact .append (.append (.of_all rfl) hkey) (.of_all rfl)

theorem OneLine.fileSource (h : s.OneLine) (ht : IsLine target) : IsLine (s.fileSource target) := by
  have hslash : IsLine (if target.head? = some '/' then [] else ['/']) := by split <;> decide
  have hdir : IsLine ("salt://".toList ++ s.statePath ++ ['/'] ++ s.options.filesDir) :=
    .append (.append (.append (.of_all rfl) h.statePath) (.of_all rfl)) h.options.filesDir
  exact .append (.append (.append hdir hslash) ht) (.of_all rfl)

theorem OneLine.package (h : s.OneLine) (ht : IsLine target) (state : ItemState) :
    (s.package target state).WellFormed := by
  have hname : OneLineParams [param "name" (Yaml.scalar target)] := .cons rfl ht.scalar .nil
  rcases state with (_ | value) | _
  · exact .of (s.isId_wantedId target rfl) rfl hname
  · refine .of (s.isId_wantedId target rfl) rfl (.cons rfl ht.scalar ?_)
    exact .cons rfl (h.versionLookup ht) (.cons rfl (.of_all rfl) .nil)
  · exact .of (s.isId_wantedActionId target rfl rfl) rfl hname

theorem OneLine.file (h : s.OneLine) (ht : IsLine target) (hs : state.OneLine) :
    (s.file target state).WellFormed := by
  rcases state with mode | _
  · refine .of (s.isId_wantedId target rfl) rfl (.append ?_ h.ownership)
    refine .cons rfl ht.scalar (.cons rfl (h.fileSource ht).scalar ?_)
    refine .cons rfl (.of_all rfl) (.cons rfl (.of_all rfl) ?_)
    exact .cons rfl (hs.getD (.of_all rfl)).quote .nil
  · refine .of (s.isId_wantedActionId target rfl rfl) rfl ?_
    exact .cons rfl ht.scalar .nil

theorem OneLine.directory (h : s.OneLine) (ht : IsLine target) (hs : state.OneLine) :
    (s.directory target state).WellFormed := by
  rcases state with mode | _
  · refine .of (s.isId_wantedId target rfl) rfl (.append ?_ h.ownership)
    refine .cons rfl ht.scalar (.cons rfl (.of_all rfl) ?_)
    exact .cons rfl (hs.getD (.of_all rfl)).quote .nil
  · refine .of (s.isId_wantedActionId target rfl rfl) rfl ?_
    exact .cons rfl ht.scalar .nil

theorem wellFormed_service (s : Setup) (ht : IsLine target) (state : ItemState) :
    (s.service target state).WellFormed := by
  rcases state with value | _
  · refine .of (s.isId_wantedId target rfl) rfl (.cons rfl ht.scalar ?_)
    exact .cons rfl (.of_all rfl) .nil
  · refine .of (s.isId_wantedActionId target rfl rfl) rfl ?_
    exact .cons rfl ht.scalar (.cons rfl (.of_all rfl) .nil)

theorem OneLine.symlink (h : s.OneLine) {l : LinkLine} (hl : IsLine l.linkPath) (ht : IsLine l.targetPath) :
    (s.symlink l).WellFormed := by
  unfold Setup.symlink
  split
  · refine .of (s.isId_wantedActionId l.linkPath rfl rfl) rfl ?_
    exact .cons rfl hl.scalar .nil
  · refine .of (s.isId_wantedId l.linkPath rfl) rfl (.append ?_ h.ownership)
    refine .cons rfl hl.scalar (.cons rfl ht.scalar ?_)
    exact .cons rfl (.of_all rfl) (.cons rfl (.of_all rfl) .nil)

theorem wellFormed_setting (s : Setup) {key : Text} (hk : IsLine key) (hv : IsLine value) :
    (s.setting key value).WellFormed := by
  refine .of (s.isId_wantedId key rfl) rfl (.cons rfl hk.scalar ?_)
  exact .cons rfl hv.scalar (.cons rfl (.of_all rfl) .nil)

theorem wellFormed_command (s : Setup) {c : Text} (hc : IsLine c) : (s.command c).WellFormed :=
  .of (s.isId_wantedActionId _ rfl rfl) rfl (.cons rfl hc.scalar .nil)

theorem wellFormed_script (s : Setup) {path : Text} (hp : IsLine path) : (s.script path).WellFormed :=
  .of (s.isId_wantedActionId path rfl rfl) rfl (.cons rfl hp.scalar .nil)

theorem oneLineParams_scheduleParams {schedule : Schedule} (h : schedule.OneLine) :
    OneLineParams (scheduleParams schedule) := by
  cases schedule with
  | special name => exact .cons rfl (Text.IsLine.quote h) .nil
  | fields minute hour dayOfMonth month dayOfWeek =>
      obtain ⟨hminute, hhour, hdayOfMonth, hmonth, hdayOfWeek⟩ := h
      refine .cons rfl hminute.quote (.cons rfl hhour.quote ?_)
      refine .cons rfl hdayOfMonth.quote (.cons rfl hmonth.quote ?_)
      exact .cons rfl hdayOfWeek.quote .nil

theorem OneLine.cronjob (h : s.OneLine) {c : CronLine} (hc : IsLine c.command) (hs : c.schedule.OneLine) :
    (s.cronjob c).WellFormed := by
  refine .of (s.isId_wantedId c.command rfl) rfl (.append ?_ ?_)
  · exact .cons rfl hc.scalar (.cons rfl h.options.cronUser.scalar .nil)
  · exact oneLineParams_scheduleParams hs

end Setup

end Saltern
