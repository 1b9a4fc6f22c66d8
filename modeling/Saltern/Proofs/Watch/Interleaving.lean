import Mathlib.Data.List.Basic
import Saltern.Proofs.Project.Writing
import Saltern.Proofs.Watch.EventLoop
import Saltern.Watch.Basic

/-!
# Every interleaving of a watch

Changes of files, timers that go off and runs that end may follow on each other in any order. Whatever the
order, runs never overlap, no change is forgotten before a run has started behind it, and changes during a
run have exactly one more run follow.
-/

namespace Saltern

/-- What happens to a watch. -/
inductive Happening
  /-- Something happened to a file. -/
  | change (event path : Text)
  /-- A timer goes off while the files are as in a tree. -/
  | timer (k : Nat) (t : FileTree)
  /-- A run under way goes through to its end in a workspace, with success or without. -/
  | completion (s : Workspace)

/-- Whether something calls for a run: a change of a file that a watch minds. -/
def Happening.calls (w : Watch) : Happening → Bool
  | .change _ path => w.minds (w.root.resolve path)
  | _ => false

/-- Whether a run ends. -/
def Happening.endsRun : Happening → Bool
  | .completion _ => true
  | _ => false

/-- A watch, and the timers and runs around it. -/
structure Session where
  watch : Watch
  loop : EventLoop

namespace Session

def start (w : Watch) : Session := ⟨w, .start⟩

/-- What becomes of a watch: a timer goes off only when it is set, and a run ends only when one is under
way. -/
def step (s : Session) : Happening → Session
  | .change event path =>
    ⟨(s.watch.notice event path).1,
      if s.watch.minds (s.watch.root.resolve path) then s.loop.schedule else s.loop⟩
  | .timer k t => ⟨if k ∈ s.loop.timers then (s.watch.fire t).1 else s.watch, s.loop.goOff k⟩
  | .completion ws => ⟨if s.loop.inFlight = 0 then s.watch else (s.watch.finish ws).1, s.loop.endRun⟩

def after (s : Session) (hs : List Happening) : Session := hs.foldl step s

variable {s : Session} {w : Watch} {h : Happening} {hs : List Happening} {n : Nat}

theorem after_append (s : Session) (hs gs : List Happening) :
    s.after (hs ++ gs) = (s.after hs).after gs := List.foldl_append

theorem after_cons (s : Session) (h : Happening) (hs : List Happening) :
    s.after (h :: hs) = (s.step h).after hs := rfl

/-! ## One step -/

/-- The loop around a session, step by step. -/
theorem loop_step (s : Session) (h : Happening) :
    (s.step h).loop = s.loop ∧ h.calls s.watch = false ∧ h.endsRun = false ∨
      (s.step h).loop = s.loop.schedule ∧ h.calls s.watch = true ∨
      (∃ k ∈ s.loop.timers, (s.step h).loop = s.loop.goOff k) ∧ h.calls s.watch = false ∨
      (s.step h).loop = s.loop.endRun ∧ h.endsRun = true := by
  cases h with
  | change event path =>
      cases hm : s.watch.minds (s.watch.root.resolve path) with
      | false => exact .inl ⟨by simp [step, hm], hm, rfl⟩
      | true => exact .inr (.inl ⟨by simp [step, hm], hm⟩)
  | timer k t =>
      by_cases hk : k ∈ s.loop.timers
      · exact .inr (.inr (.inl ⟨⟨k, hk, rfl⟩, rfl⟩))
      · exact .inl ⟨EventLoop.goOff_of_not_mem hk, rfl, rfl⟩
  | completion ws => exact .inr (.inr (.inr ⟨rfl, rfl⟩))

/-- Where a watch looks, what is asked of it and which source it knows is settled when it starts. -/
theorem settings_step (s : Session) (h : Happening) :
    (s.step h).watch.root = s.watch.root ∧ (s.step h).watch.request = s.watch.request ∧
      (s.step h).watch.source = s.watch.source := by
  cases h with
  | change event path =>
      simp only [step, Watch.notice]
      split <;> exact ⟨rfl, rfl, rfl⟩
  | timer k t =>
      simp only [step, Watch.fire]
      split
      · split <;> exact ⟨rfl, rfl, rfl⟩
      · exact ⟨rfl, rfl, rfl⟩
  | completion ws =>
      simp only [step, Watch.finish]
      split
      · exact ⟨rfl, rfl, rfl⟩
      · split <;> exact ⟨rfl, rfl, rfl⟩

theorem settings_after (s : Session) (hs : List Happening) :
    (s.after hs).watch.root = s.watch.root ∧ (s.after hs).watch.request = s.watch.request ∧
      (s.after hs).watch.source = s.watch.source := by
  induction hs generalizing s with
  | nil => exact ⟨rfl, rfl, rfl⟩
  | cons g gs ih =>
      obtain ⟨hroot, hrequest, hsource⟩ := settings_step s g
      obtain ⟨hroot', hrequest', hsource'⟩ := ih (s.step g)
      exact ⟨hroot'.trans hroot, hrequest'.trans hrequest, hsource'.trans hsource⟩

/-- So it minds the same as long as it goes on. -/
theorem calls_after (s : Session) (hs : List Happening) :
    Happening.calls (s.after hs).watch = Happening.calls s.watch := by
  obtain ⟨hroot, hrequest, hsource⟩ := settings_after s hs
  funext g
  cases g <;> simp only [Happening.calls, Watch.minds, Watch.isConfig, hroot, hrequest, hsource]

theorem calls_step (s : Session) (h : Happening) :
    Happening.calls (s.step h).watch = Happening.calls s.watch := calls_after s [h]

/-- A session in which timers and runs come one by one and the watch knows what there is to know. -/
structure InStep (s : Session) : Prop where
  single : s.loop.Single
  scheduler : s.watch.scheduler = s.loop.scheduler
  runs : s.watch.runs = s.loop.started

theorem InStep.change (hs : s.InStep) (event path : Text) : (s.step (.change event path)).InStep := by
  simp only [step, Watch.notice]
  split
  · exact ⟨hs.single.schedule, by rw [hs.single.scheduler_schedule, ← hs.scheduler], hs.runs⟩
  · exact hs

theorem InStep.timer (hs : s.InStep) (k : Nat) (t : FileTree) : (s.step (.timer k t)).InStep := by
  simp only [step]
  by_cases hk : k ∈ s.loop.timers
  · have hpending : s.watch.scheduler.pending = true := by
      rw [hs.scheduler, EventLoop.scheduler, Bool.not_eq_true', List.isEmpty_eq_false_iff]
      exact List.ne_nil_of_mem hk
    have hrunning : s.watch.scheduler.running = s.loop.busy := congrArg Scheduler.running hs.scheduler
    rw [if_pos hk]
    refine ⟨hs.single.goOff k, ?_, ?_⟩
    · rw [hs.single.scheduler_goOff hk, ← hs.scheduler, Watch.fire]
      split <;> rfl
    · rw [Watch.fire, Scheduler.startsRun, hpending, hrunning]
      cases hb : s.loop.busy with
      | true => exact (hs.single.goOff_of_busy hk hb).symm ▸ hs.runs
      | false => exact (hs.single.goOff_of_idle hk hb).symm ▸ congrArg (· + 1) hs.runs
  · rw [if_neg hk, EventLoop.goOff_of_not_mem hk]
    exact hs

theorem InStep.completion (hs : s.InStep) (ws : Workspace) : (s.step (.completion ws)).InStep := by
  simp only [step]
  by_cases hrun : s.loop.inFlight = 0
  · rw [if_pos hrun, EventLoop.endRun_of_idle hrun]
    exact hs
  · have hrunning : s.watch.scheduler.running = true := by
      rw [hs.scheduler]
      rwa [hs.single.inFlight_eq_zero_iff, Bool.not_eq_false] at hrun
    have hstarted : s.loop.endRun.started = s.loop.started := by
      cases ha : s.loop.again with
      | true => rw [EventLoop.endRun_of_again hrun ha]; rfl
      | false => rw [EventLoop.endRun_of_last hrun ha]
    rw [if_neg hrun, Watch.finish, if_pos hrunning]
    refine ⟨hs.single.endRun, ?_, hs.runs.trans hstarted.symm⟩
    rw [hs.single.scheduler_endRun, ← hs.scheduler]

theorem InStep.step (hs : s.InStep) (h : Happening) : (s.step h).InStep := by
  cases h with
  | change event path => exact hs.change event path
  | timer k t => exact hs.timer k t
  | completion ws => exact hs.completion ws

theorem InStep.after (h : s.InStep) (hs : List Happening) : (s.after hs).InStep := by
  induction hs generalizing s with
  | nil => exact h
  | cons g gs ih => exact ih (h.step g)

/-! ## No change is forgotten -/

/-- Behind a change at which `n` runs had started, another one has started since, or a timer is set, or a
run is under way that another one is to follow. -/
def Heeded (n : Nat) (s : Session) : Prop :=
  n < s.loop.started ∨ s.loop.timers ≠ [] ∨ 0 < s.loop.inFlight ∧ s.loop.again = true

theorem InStep.heeded_of_calls (hs : s.InStep) (hc : h.calls s.watch = true) (n : Nat) :
    (s.step h).Heeded n := by
  cases h with
  | change event path =>
      have hm : s.watch.minds (s.watch.root.resolve path) = true := hc
      refine .inr (.inl ?_)
      simp only [Session.step]
      rw [if_pos hm, hs.single.timers_schedule]
      exact List.cons_ne_nil _ _
  | timer k t => cases hc
  | completion ws => cases hc

/-- The number of runs that were started never goes down. -/
theorem InStep.started_le_step (hs : s.InStep) (h : Happening) :
    s.loop.started ≤ (s.step h).loop.started := by
  rw [← hs.runs, ← (hs.step h).runs]
  cases h with
  | change event path =>
      simp only [Session.step, Watch.notice]
      split <;> exact Nat.le_refl _
  | timer k t =>
      simp only [Session.step, Watch.fire]
      split
      · split
        · exact Nat.le_succ _
        · exact Nat.le_refl _
      · exact Nat.le_refl _
  | completion ws =>
      simp only [Session.step, Watch.finish]
      split
      · exact Nat.le_refl _
      · split <;> exact Nat.le_refl _

theorem InStep.heeded_step (hs : s.InStep) (hn : n ≤ s.loop.started) (hh : s.Heeded n) (h : Happening) :
    (s.step h).Heeded n := by
  rcases hh with hlater | hsome
  · exact .inl (Nat.lt_of_lt_of_le hlater (hs.started_le_step h))
  rcases loop_step s h with ⟨hsame, -, -⟩ | ⟨-, hc⟩ | ⟨⟨k, hk, hgone⟩, -⟩ | ⟨hended, -⟩
  · rw [Heeded, hsame]
    exact .inr hsome
  · exact hs.heeded_of_calls hc n
  · -- The timer that has gone off starts a run, or has one follow the run under way.
    rw [Heeded, hgone]
    cases hb : s.loop.busy with
    | true =>
        rw [hs.single.goOff_of_busy hk hb]
        refine .inr (.inr ⟨?_, rfl⟩)
        exact Nat.pos_of_ne_zero fun hzero ↦
          Bool.false_ne_true ((hs.single.inFlight_eq_zero_iff.mp hzero).symm.trans hb)
    | false =>
        rw [hs.single.goOff_of_idle hk hb]
        exact .inl (Nat.lt_succ_of_le hn)
  · -- The run that has ended sets a timer where another one is to follow, and clears none otherwise.
    rw [Heeded, hended]
    by_cases hrun : s.loop.inFlight = 0
    · rw [EventLoop.endRun_of_idle hrun]
      exact .inr hsome
    · cases ha : s.loop.again with
      | true =>
          rw [EventLoop.endRun_of_again hrun ha, hs.single.ended.timers_schedule]
          exact .inr (.inl (List.cons_ne_nil _ _))
      | false =>
          rw [EventLoop.endRun_of_last hrun ha]
          rcases hsome with htimers | ⟨-, hagain⟩
          · exact .inr (.inl htimers)
          · exact absurd (ha.symm.trans hagain) Bool.false_ne_true

theorem InStep.heeded_after (hi : s.InStep) (hn : n ≤ s.loop.started) (hh : s.Heeded n)
    (hs : List Happening) : (s.after hs).Heeded n := by
  induction hs generalizing s with
  | nil => exact hh
  | cons g gs ih =>
      exact ih (hi.step g) (Nat.le_trans hn (hi.started_le_step g)) (hi.heeded_step hn hh g)

/-! ## Changes during a run have one run follow -/

/-- The run that made `n` runs is under way. -/
def Underway (n : Nat) (s : Session) : Prop := s.loop.busy = true ∧ s.loop.started = n

/-- Another run is to come. -/
def Owing (s : Session) : Prop := s.loop.timers ≠ [] ∨ s.loop.again = true

theorem InStep.underway_step (hs : s.InStep) (hu : s.Underway n) (he : h.endsRun = false) :
    (s.step h).Underway n ∧ (s.Owing ∨ h.calls s.watch = true → (s.step h).Owing) := by
  rcases loop_step s h with ⟨hsame, hc, -⟩ | ⟨hset, -⟩ | ⟨⟨k, hk, hgone⟩, -⟩ | ⟨-, hend⟩
  · simp only [Underway, Owing, hsame, hc]
    refine ⟨hu, ?_⟩
    rintro (howing | hcall)
    · exact howing
    · cases hcall
  · simp only [Underway, Owing, hset, hs.single.timers_schedule]
    exact ⟨hu, fun _ ↦ .inl (List.cons_ne_nil _ _)⟩
  · simp only [Underway, Owing, hgone, hs.single.goOff_of_busy hk hu.1]
    exact ⟨hu, fun _ ↦ .inr trivial⟩
  · exact absurd (he.symm.trans hend) Bool.false_ne_true

/-- As long as a run is under way, a change has another one to come, and it stays so. -/
theorem InStep.underway_after (hi : s.InStep) (hu : s.Underway n) (he : ∀ h ∈ hs, h.endsRun = false) :
    (s.after hs).Underway n ∧
      (s.Owing ∨ (∃ h ∈ hs, h.calls s.watch = true) → (s.after hs).Owing) := by
  induction hs generalizing s with
  | nil =>
      refine ⟨hu, ?_⟩
      rintro (howing | ⟨h, hmem, -⟩)
      · exact howing
      · cases hmem
  | cons g gs ih =>
      obtain ⟨hg, hgs⟩ := List.forall_mem_cons.mp he
      obtain ⟨hstep, howing⟩ := hi.underway_step hu hg
      obtain ⟨hafter, hlater⟩ := ih (hi.step g) hstep hgs
      refine ⟨hafter, fun hcause ↦ hlater ?_⟩
      rcases hcause with hbefore | ⟨h, hmem, hc⟩
      · exact .inl (howing (.inl hbefore))
      · rcases List.mem_cons.mp hmem with rfl | hmem
        · exact .inl (howing (.inr hc))
        · exact .inr ⟨h, hmem, (congrFun (calls_step s g) h).trans hc⟩

/-- After `n` runs one more is to come and nothing behind it: its timer is set, or it has started. -/
def LastToCome (n : Nat) (s : Session) : Prop :=
  s.loop.started = n ∧ s.loop.timers ≠ [] ∧ s.loop.busy = false ∨
    s.loop.started = n + 1 ∧ s.loop.timers = [] ∧ s.loop.again = false

/-- At the end of a run behind which another one is to come, one is, and nothing behind it. -/
theorem InStep.lastToCome_of_owing (hs : s.InStep) (hu : s.Underway n) (ho : s.Owing) (ws : Workspace) :
    (s.step (.completion ws)).LastToCome n := by
  have hrun : s.loop.inFlight ≠ 0 := by
    rw [ne_eq, hs.single.inFlight_eq_zero_iff, hu.1]
    exact Bool.noConfusion
  refine .inl ?_
  simp only [Session.step]
  cases ha : s.loop.again with
  | true =>
      rw [EventLoop.endRun_of_again hrun ha, hs.single.ended.timers_schedule]
      exact ⟨hu.2, List.cons_ne_nil _ _, rfl⟩
  | false =>
      rw [EventLoop.endRun_of_last hrun ha]
      refine ⟨hu.2, ho.resolve_right ?_, rfl⟩
      rw [ha]
      exact Bool.false_ne_true

theorem InStep.lastToCome_step (hs : s.InStep) (hl : s.LastToCome n) (hc : h.calls s.watch = false) :
    (s.step h).LastToCome n := by
  rcases loop_step s h with ⟨hsame, -, -⟩ | ⟨-, hcall⟩ | ⟨⟨k, hk, hgone⟩, -⟩ | ⟨hended, -⟩
  · rw [LastToCome, hsame]
    exact hl
  · exact absurd (hc.symm.trans hcall) Bool.false_ne_true
  · rcases hl with ⟨hstarted, -, hidle⟩ | ⟨-, hnone, -⟩
    · have hagain : s.loop.again = false := by
        rw [← Bool.not_eq_true]
        exact fun ha ↦ Bool.false_ne_true (hidle.symm.trans (hs.single.again ha))
      rw [LastToCome, hgone, hs.single.goOff_of_idle hk hidle]
      exact .inr ⟨congrArg (· + 1) hstarted, rfl, hagain⟩
    · rw [hnone] at hk
      cases hk
  · rw [LastToCome, hended]
    rcases hl with ⟨hstarted, htimers, hidle⟩ | ⟨hstarted, hnone, hagain⟩
    · rw [EventLoop.endRun_of_idle (hs.single.inFlight_eq_zero_iff.mpr hidle)]
      exact .inl ⟨hstarted, htimers, hidle⟩
    · refine .inr ?_
      by_cases hrun : s.loop.inFlight = 0
      · rw [EventLoop.endRun_of_idle hrun]
        exact ⟨hstarted, hnone, hagain⟩
      · rw [EventLoop.endRun_of_last hrun hagain]
        exact ⟨hstarted, hnone, hagain⟩

theorem InStep.lastToCome_after (hi : s.InStep) (hl : s.LastToCome n)
    (hc : ∀ h ∈ hs, h.calls s.watch = false) : (s.after hs).LastToCome n := by
  induction hs generalizing s with
  | nil => exact hl
  | cons g gs ih =>
      obtain ⟨hg, hgs⟩ := List.forall_mem_cons.mp hc
      refine ih (hi.step g) (hi.lastToCome_step hl hg) fun h hmem ↦ ?_
      rw [calls_step]
      exact hgs h hmem

end Session

namespace Watch

variable {root : Path} {q : Request} {delay : Int} {speaker whoRuns : Speaker} {ws : Workspace} {w : Watch}

/-- A watch starts with a timer set, before any run. -/
theorem scheduler_of_start (h : ((start root q delay speaker whoRuns).run ws).report.result = .ok w) :
    w.scheduler = .start ∧ w.runs = 0 := by
  rw [start] at h
  obtain ⟨⟨_, c⟩, -, hrest⟩ := Action.exists_of_bind_ok h
  obtain ⟨-, -, hlast⟩ := Action.exists_of_bind_ok hrest
  cases hlast
  exact ⟨rfl, rfl⟩

theorem inStep_start (h : ((start root q delay speaker whoRuns).run ws).report.result = .ok w) :
    (Session.start w).InStep where
  single := EventLoop.single_start
  scheduler := (scheduler_of_start h).1
  runs := (scheduler_of_start h).2

/-- Whatever happens to a watch from its start on, and in whatever order: at most one run is under way and
at most one timer is set, as its scheduler has it. After a change that it minds, until a run has started
behind it, a timer is set or a run is under way that another one is to follow. And where there were such
changes during a run and none behind its end, one more run has started, and only one, when all is quiet. -/
theorem after_start (h : ((start root q delay speaker whoRuns).run ws).report.result = .ok w) :
    (∀ hs, let s := (Session.start w).after hs
      s.loop.inFlight ≤ 1 ∧ s.loop.timers.length ≤ 1 ∧
        s.watch.scheduler = s.loop.scheduler ∧ s.watch.runs = s.loop.started) ∧
    (∀ before event path later, w.minds (w.root.resolve path) = true →
      let s := (Session.start w).after before
      let s' := s.after (.change event path :: later)
      s.watch.runs < s'.watch.runs ∨ s'.loop.timers ≠ [] ∨
        0 < s'.loop.inFlight ∧ s'.watch.scheduler.again = true) ∧
    ∀ before during ws' later,
      let s := (Session.start w).after before
      let s' := s.after (during ++ .completion ws' :: later)
      0 < s.loop.inFlight → (∀ h ∈ during, h.endsRun = false) → (∃ h ∈ during, h.calls w = true) →
      (∀ h ∈ later, h.calls w = false) → s'.loop.timers = [] → s'.loop.inFlight = 0 →
      s'.watch.runs = s.watch.runs + 1 := by
  have hstart := inStep_start h
  have hcalls : ∀ hs, Happening.calls ((Session.start w).after hs).watch = Happening.calls w :=
    Session.calls_after (Session.start w)
  refine ⟨?_, ?_, ?_⟩
  · intro hs
    have hi := hstart.after hs
    exact ⟨hi.single.inFlight_le, hi.single.length_timers_le, hi.scheduler, hi.runs⟩
  · intro before event path later hm s s'
    have hs : s.InStep := hstart.after before
    have hs' : s'.InStep := hs.after _
    have hcall : (Happening.change event path).calls s.watch = true := by
      rw [hcalls before]
      exact hm
    rw [hs.runs, hs'.runs, hs'.scheduler]
    exact (hs.step _).heeded_after (hs.started_le_step _) (hs.heeded_of_calls hcall _) later
  · intro before during ws' later s s' hrun hduring hchange hlater htimers hquiet
    have hs : s.InStep := hstart.after before
    have hunderway : s.Underway s.loop.started := by
      refine ⟨?_, rfl⟩
      rw [← Bool.not_eq_false, ← hs.single.inFlight_eq_zero_iff]
      exact Nat.ne_of_gt hrun
    rw [← hcalls before] at hchange
    obtain ⟨hunderway, howing⟩ := hs.underway_after hunderway hduring
    have hend := (hs.after during).lastToCome_of_owing hunderway (howing (.inr hchange)) ws'
    have hlast : s'.LastToCome s.loop.started := by
      change ((s.after (during ++ .completion ws' :: later))).LastToCome _
      rw [Session.after_append, Session.after_cons]
      refine ((hs.after during).step _).lastToCome_after hend fun g hg ↦ ?_
      rw [Session.calls_step, Session.calls_after, hcalls]
      exact hlater g hg
    have hs' : s'.InStep := hs.after _
    rw [hs.runs, hs'.runs]
    rcases hlast with ⟨-, hset, -⟩ | ⟨hstarted, -⟩
    · exact absurd htimers hset
    · exact hstarted

/-- Two changes during the first run, with a timer going off between them, have one run follow. Both runs
fail, for there is no source. -/
theorem after_start_two_changes :
    ∃ w, ((start .top .plain 150 .watch .runner).run (.ofTree .empty)).report.result = .ok w ∧
      let source : Happening := .change "change" "Brinefile"
      let s := (Session.start w).after [.timer 0 .empty]
      let s' := s.after ([source, .timer 1 .empty, source] ++
        .completion (.ofTree .empty) :: [.timer 3 .empty, .completion (.ofTree .empty)])
      0 < s.loop.inFlight ∧ source.calls w = true ∧ s'.loop.timers = [] ∧ s'.loop.inFlight = 0 ∧
        s'.watch.runs = s.watch.runs + 1 := by
  have hstart : ((start .top .plain 150 .watch .runner).run (.ofTree .empty)).report.result = .ok _ := rfl
  have hall := after_start hstart
  refine ⟨_, rfl, by decide, by decide, by decide +kernel, by decide +kernel, ?_⟩
  refine hall.2.2 [.timer 0 .empty] [_, .timer 1 .empty, _] (.ofTree .empty)
    [.timer 3 .empty, .completion (.ofTree .empty)] (by decide) ?_ ⟨_, List.mem_cons_self, by decide⟩ ?_ (by decide +kernel) (by decide +kernel)
  · simp [Happening.endsRun]
  · simp [Happening.calls]

end Watch

end Saltern
