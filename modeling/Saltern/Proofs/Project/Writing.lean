import Saltern.Project.Run
import Saltern.Proofs.Files.Change

/-!
# What a run changes

A run looks at the file tree until its plan is made, and then makes the plan's changes in order, up to
the first that is refused. What was changed until then stays.
-/

namespace Saltern

namespace Action

variable {ε α β : Type} {a : Action ε α} {f : α → Action ε β} {w : Workspace}

theorem run_bind_of_error {e : ε} (h : (a.run w).report.result = .error e) :
    ((a >>= f).run w).workspace = (a.run w).workspace ∧ ((a >>= f).run w).report.result = .error e := by
  rw [run_bind]
  unfold andThen
  simp only [run] at h ⊢
  rw [h]
  exact ⟨rfl, rfl⟩

theorem run_bind_of_ok {x : α} (h : (a.run w).report.result = .ok x) :
    ((a >>= f).run w).workspace = ((f x).run (a.run w).workspace).workspace ∧
      ((a >>= f).run w).report.result = ((f x).run (a.run w).workspace).report.result := by
  rw [run_bind]
  unfold andThen
  simp only [run] at h ⊢
  rw [h]
  exact ⟨rfl, rfl⟩

theorem result_bind (a : Action ε α) (f : α → Action ε β) (w : Workspace) :
    ((a >>= f).run w).report.result =
      (a.run w).report.result.bind fun x ↦ ((f x).run (a.run w).workspace).report.result := by
  cases h : (a.run w).report.result with
  | error e => exact (run_bind_of_error h).2
  | ok x => exact (run_bind_of_ok h).2

/-- Where actions in a row succeed, each of them does. -/
theorem exists_of_bind_ok {y : β} (h : ((a >>= f).run w).report.result = .ok y) :
    ∃ x, (a.run w).report.result = .ok x ∧ ((f x).run (a.run w).workspace).report.result = .ok y := by
  cases ha : (a.run w).report.result with
  | error e =>
      rw [(run_bind_of_error ha).2] at h
      cases h
  | ok x => exact ⟨x, rfl, (run_bind_of_ok ha).2 ▸ h⟩

/-- Actions in a row are the same however they are taken together. -/
theorem bind_assoc {γ : Type} (a : Action ε α) (f : α → Action ε β) (g : β → Action ε γ) :
    a >>= f >>= g = a >>= fun x ↦ f x >>= g := by
  funext w
  change andThen (andThen a f) g w = andThen a (fun x ↦ andThen (f x) g) w
  unfold andThen
  simp only [run]
  cases h : (a w).report.result with
  | error e => simp
  | ok x =>
      cases hx : (f x (a w).workspace).report.result with
      | error e => simp [hx]
      | ok y => simp [hx]

/-- An action that leaves every tree as it is. -/
def LooksOnly (a : Action ε α) : Prop := ∀ w, (a.run w).tree = w.tree

theorem looksOnly_look (f : FileTree → Report ε α) : LooksOnly (look f) := fun _ ↦ rfl

theorem LooksOnly.bind (ha : LooksOnly a) (hf : ∀ x, LooksOnly (f x)) : LooksOnly (a >>= f) := by
  intro w
  unfold Outcome.tree
  cases h : (a.run w).report.result with
  | error e =>
      rw [(run_bind_of_error h).1]
      exact ha w
  | ok x =>
      rw [(run_bind_of_ok h).1]
      exact (hf x _).trans (ha w)

/-- An action that makes some changes in order, up to the first that is refused. -/
def Performs (a : Action Failure Unit) (cs : List Change) : Prop :=
  ∀ w, (a.run w).tree = Change.after w.tree cs ∧
    (a.run w).report.result =
      match Change.refusal? w.tree cs with
      | some e => .error (.disk e)
      | none => .ok ()

theorem performs_pure : Performs (pure ()) [] := fun _ ↦ ⟨rfl, rfl⟩

theorem performs_tell (speaker : Speaker) (severity : Severity) (text : Text) :
    Performs (tell speaker severity text) [] := fun _ ↦ ⟨rfl, rfl⟩

theorem performs_change (c : Change) : Performs (change .disk (Change.apply · c)) [c] := by
  intro w
  unfold Outcome.tree
  cases h : Change.apply w.tree c with
  | error e =>
      rw [run_change_error (f := (Change.apply · c)) h]
      simp [Change.after, Change.refusal?, h]
  | ok t =>
      rw [run_change_ok (f := (Change.apply · c)) h]
      simp [Change.after, Change.refusal?, h, Report.ok]

theorem Performs.bind {a b : Action Failure Unit} {cs ds : List Change} (ha : Performs a cs)
    (hb : Performs b ds) : Performs (a >>= fun _ ↦ b) (cs ++ ds) := by
  intro w
  obtain ⟨htree, hresult⟩ := ha w
  unfold Outcome.tree at htree ⊢
  rw [Change.after_append, Change.refusal?_append]
  cases hr : Change.refusal? w.tree cs with
  | some e =>
      rw [hr] at hresult
      obtain ⟨hw, he⟩ := run_bind_of_error (f := fun _ ↦ b) hresult
      exact ⟨by rw [hw, htree]; rfl, he⟩
  | none =>
      rw [hr] at hresult
      obtain ⟨hw, he⟩ := run_bind_of_ok (f := fun _ ↦ b) hresult
      obtain ⟨htreeb, hresultb⟩ := hb (a.run w).workspace
      rw [htree] at htreeb hresultb
      exact ⟨by rw [hw]; exact htreeb, by rw [he, hresultb]; rfl⟩

theorem Performs.tree_bind {a : Action Failure Unit} {cs : List Change} {f : Unit → Action Failure α}
    (ha : Performs a cs) (hf : ∀ x, LooksOnly (f x)) (w : Workspace) :
    ((a >>= f).run w).tree = Change.after w.tree cs := by
  rw [← (ha w).1]
  unfold Outcome.tree
  cases h : (a.run w).report.result with
  | error e => rw [(run_bind_of_error h).1]
  | ok x =>
      rw [(run_bind_of_ok h).1]
      exact hf x _

theorem Performs.forM {γ : Type} {f : γ → Action Failure Unit} {change : γ → Change}
    (h : ∀ x, Performs (f x) [change x]) (xs : List γ) : Performs (xs.forM f) (xs.map change) := by
  induction xs with
  | nil => exact performs_pure
  | cons x xs ih => exact (h x).bind ih

end Action

/-- The changes that a plan makes: its directories, then its files. -/
def Plan.changes (p : Plan) : List Change :=
  p.directories.map .directory ++ p.files.map fun a ↦ .file a.path a.text

theorem Plan.performs_write (p : Plan) (speaker : Speaker) : (p.write speaker).Performs p.changes := by
  have htold : ∀ (c : Change) (text : Text),
      (Action.change .disk (Change.apply · c) >>= fun _ ↦
        Action.tell speaker .debug text).Performs [c] :=
    fun c text ↦ (Action.performs_change c).bind (Action.performs_tell speaker .debug text)
  have hdirs := Action.Performs.forM (f := p.makeDirectory speaker)
    (fun dir ↦ htold (.directory dir) _) p.directories
  have hfiles := Action.Performs.forM (f := p.writeFile speaker)
    (fun a ↦ htold (.file a.path a.text) _) p.files
  have hall := hdirs.bind (hfiles.bind (Action.performs_tell speaker .info
    ("wrote " ++ Text.countedRegular "file" p.files.length)))
  rw [List.append_nil] at hall
  exact hall

namespace Project

variable {root : Path} {q : Request} {speaker : Speaker} {w : Workspace}

/-- Everything of a run up to its first change. -/
def planned (root : Path) (q : Request) (speaker : Speaker) : Action Failure Compiled := do
  let found ← .look (search root q)
  let c ← config found
  .look (prepare root q speaker c)

/-- What a run does with its plan. -/
def carryOut (speaker : Speaker) (r : Compiled) : Action Failure Compiled := do
  r.plan.write speaker
  if !r.plan.pins.isEmpty then
    .tell speaker .info ("pinned " ++ Text.countedRegular "package version" r.plan.pins.size)
  return r

theorem run_eq (root : Path) (q : Request) (speaker : Speaker) :
    run root q speaker = planned root q speaker >>= carryOut speaker := by
  rw [planned, Action.bind_assoc]
  refine congrArg (Action.look (search root q) >>= ·) (funext fun found ↦ ?_)
  rw [Action.bind_assoc]
  rfl

/-! ## Before the first change -/

theorem looksOnly_configText (p : Path) : (configText p).LooksOnly := by
  unfold configText
  split
  · exact Action.looksOnly_look _
  · exact fun w ↦ Action.tree_readOnce _ p w

theorem looksOnly_config (found : Option Path) : (config found).LooksOnly := by
  cases found with
  | none => exact fun _ ↦ rfl
  | some p =>
      have hread : (readConfig p).LooksOnly :=
        (looksOnly_configText p).bind fun _ ↦ Action.looksOnly_look _
      exact hread.bind fun _ ↦ (Action.looksOnly_look _).bind fun _ ↦ fun _ ↦ rfl

/-- Nothing is changed until the plan is made. -/
theorem looksOnly_planned (root : Path) (q : Request) (speaker : Speaker) :
    (planned root q speaker).LooksOnly :=
  (Action.looksOnly_look _).bind fun found ↦ (looksOnly_config found).bind fun _ ↦ Action.looksOnly_look _

/-- A run that is rejected before its plan is made changes nothing. -/
theorem run_of_planned_error {e : Failure} (h : ((planned root q speaker).run w).report.result = .error e) :
    ((run root q speaker).run w).report.result = .error e ∧ ((run root q speaker).run w).tree = w.tree := by
  obtain ⟨hworkspace, hresult⟩ := Action.run_bind_of_error (f := carryOut speaker) h
  rw [run_eq]
  exact ⟨hresult, (congrArg Workspace.tree hworkspace).trans (looksOnly_planned root q speaker w)⟩

/-! ## From the first change on -/

theorem tree_carryOut (speaker : Speaker) (r : Compiled) (w : Workspace) :
    ((carryOut speaker r).run w).tree = Change.after w.tree r.plan.changes := by
  refine (r.plan.performs_write speaker).tree_bind (fun _ ↦ ?_) w
  split
  · exact (Action.looksOnly_look _).bind fun _ ↦ fun _ ↦ rfl
  · exact fun _ ↦ rfl

/-- A tree with a source at the top and some more. -/
def sourceTree (text : Text) (more : List (Path × Node)) : FileTree :=
  ⟨.ofList ((.ofText "/Brinefile", .file text) :: more)⟩

end Project

end Saltern
