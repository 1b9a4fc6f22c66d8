import Saltern.Watch.Scheduler

/-!
# Timers and runs one by one

A scheduler says whether a timer is pending and whether a run is under way. Here the timers that are set
are listed by number and the runs under way are counted, so that there could be many of each. There
never are: setting a timer clears the one set last, and a run starts only when none is under way. What a
scheduler knows is all there is to know.
-/

namespace Saltern

/-- The timers and the runs around a watch. -/
structure EventLoop where
  /-- The timers that are set and have not gone off. -/
  timers : List Nat
  /-- The timer that was set last, whether it has gone off or not. -/
  latest : Option Nat
  /-- How many timers were set. -/
  issued : Nat
  /-- How many runs are under way. -/
  inFlight : Nat
  /-- How many runs were started. -/
  started : Nat
  /-- Whether a run that wants to start has to wait. -/
  busy : Bool
  /-- Whether another run is to follow. -/
  again : Bool

namespace EventLoop

/-- Sets a timer and clears the one that was set last. -/
def schedule (l : EventLoop) : EventLoop :=
  { l with
    timers := l.latest.elim l.timers l.timers.erase ++ [l.issued]
    latest := some l.issued
    issued := l.issued + 1 }

/-- Starts a run, or has one follow where it would have to wait. -/
def beginRun (l : EventLoop) : EventLoop :=
  if l.busy then { l with again := true }
  else { l with busy := true, inFlight := l.inFlight + 1, started := l.started + 1 }

/-- A timer goes off, if it is still set. -/
def goOff (l : EventLoop) (k : Nat) : EventLoop :=
  if k ∈ l.timers then { l with timers := l.timers.erase k }.beginRun else l

/-- One of the runs under way comes to its end. -/
def endRun (l : EventLoop) : EventLoop :=
  if l.inFlight = 0 then l
  else if l.again then
    { l with inFlight := l.inFlight - 1, busy := false, again := false }.schedule
  else { l with inFlight := l.inFlight - 1, busy := false }

/-- At first a timer is set for the first run. -/
def start : EventLoop := schedule ⟨[], none, 0, 0, 0, false, false⟩

/-- What a scheduler knows of it. -/
def scheduler (l : EventLoop) : Scheduler := ⟨!l.timers.isEmpty, l.busy, l.again⟩

/-- At most one timer is set, the last one; at most one run is under way, and only behind it another one
is to follow. -/
structure Single (l : EventLoop) : Prop where
  timers : l.timers = [] ∨ ∃ k, l.timers = [k] ∧ l.latest = some k
  inFlight : l.inFlight = l.busy.toNat
  again : l.again = true → l.busy = true

variable {l : EventLoop} {k : Nat}

theorem Single.length_timers_le (h : l.Single) : l.timers.length ≤ 1 := by
  rcases h.timers with ht | ⟨k, ht, -⟩ <;> simp [ht]

theorem Single.inFlight_le (h : l.Single) : l.inFlight ≤ 1 := h.inFlight ▸ l.busy.toNat_le

theorem Single.inFlight_eq_zero_iff (h : l.Single) : l.inFlight = 0 ↔ l.busy = false := by
  rw [h.inFlight]
  cases l.busy <;> simp

/-! ## One step -/

/-- Nothing but the timer just set is left. -/
theorem Single.timers_schedule (h : l.Single) : l.schedule.timers = [l.issued] := by
  rcases h.timers with ht | ⟨k, ht, hk⟩
  · cases hl : l.latest <;> simp [schedule, ht, hl]
  · simp [schedule, ht, hk]

theorem Single.schedule (h : l.Single) : l.schedule.Single where
  timers := .inr ⟨l.issued, h.timers_schedule, rfl⟩
  inFlight := h.inFlight
  again := h.again

theorem Single.scheduler_schedule (h : l.Single) : l.schedule.scheduler = l.scheduler.changed := by
  rw [scheduler, h.timers_schedule]
  rfl

theorem goOff_of_not_mem (hk : k ∉ l.timers) : l.goOff k = l := if_neg hk

/-- Once its timer has gone off, nothing is left to wait for but a run. -/
theorem Single.timers_erase (h : l.Single) (hk : k ∈ l.timers) : l.timers.erase k = [] := by
  rcases h.timers with ht | ⟨j, ht, -⟩
  · rw [ht] at hk
    cases hk
  · rw [ht, List.mem_singleton] at hk
    rw [ht, hk, List.erase_cons_head]

/-- A timer that goes off during a run has another run follow. -/
theorem Single.goOff_of_busy (h : l.Single) (hk : k ∈ l.timers) (hb : l.busy = true) :
    l.goOff k = { l with timers := [], again := true } := by
  rw [EventLoop.goOff, if_pos hk, h.timers_erase hk]
  exact if_pos hb

/-- A timer that goes off between runs starts one. -/
theorem Single.goOff_of_idle (h : l.Single) (hk : k ∈ l.timers) (hb : l.busy = false) :
    l.goOff k =
      { l with timers := [], busy := true, inFlight := l.inFlight + 1, started := l.started + 1 } := by
  rw [EventLoop.goOff, if_pos hk, h.timers_erase hk]
  exact if_neg (ne_true_of_eq_false hb)

theorem endRun_of_idle (hrun : l.inFlight = 0) : l.endRun = l := if_pos hrun

/-- A run that another one is to follow sets a timer at its end. -/
theorem endRun_of_again (hrun : l.inFlight ≠ 0) (ha : l.again = true) :
    l.endRun = { l with inFlight := l.inFlight - 1, busy := false, again := false }.schedule := by
  rw [endRun, if_neg hrun, if_pos ha]

theorem endRun_of_last (hrun : l.inFlight ≠ 0) (ha : l.again = false) :
    l.endRun = { l with inFlight := l.inFlight - 1, busy := false } := by
  rw [endRun, if_neg hrun, if_neg (ne_true_of_eq_false ha)]

theorem Single.goOff (h : l.Single) (k : Nat) : (l.goOff k).Single := by
  by_cases hk : k ∈ l.timers
  · cases hb : l.busy with
    | true =>
        rw [h.goOff_of_busy hk hb]
        exact ⟨.inl rfl, h.inFlight, fun _ ↦ hb⟩
    | false =>
        rw [h.goOff_of_idle hk hb]
        exact ⟨.inl rfl, by simp [h.inFlight_eq_zero_iff.mpr hb], fun _ ↦ rfl⟩
  · rwa [goOff_of_not_mem hk]

theorem Single.scheduler_goOff (h : l.Single) (hk : k ∈ l.timers) :
    (l.goOff k).scheduler = l.scheduler.fired := by
  have hpending : l.timers ≠ [] := List.ne_nil_of_mem hk
  cases hb : l.busy with
  | true =>
      rw [h.goOff_of_busy hk hb]
      simp [EventLoop.scheduler, Scheduler.fired, hpending, hb]
  | false =>
      rw [h.goOff_of_idle hk hb]
      simp [EventLoop.scheduler, Scheduler.fired, hpending, hb]

/-- With its only run ended, a loop is as it was but for the run. -/
theorem Single.ended (h : l.Single) :
    Single { l with inFlight := l.inFlight - 1, busy := false, again := false } where
  timers := h.timers
  inFlight := Nat.sub_eq_zero_of_le h.inFlight_le
  again := nofun

theorem Single.endRun (h : l.Single) : l.endRun.Single := by
  by_cases hrun : l.inFlight = 0
  · rwa [endRun_of_idle hrun]
  · cases ha : l.again with
    | true =>
        rw [endRun_of_again hrun ha]
        exact h.ended.schedule
    | false =>
        rw [endRun_of_last hrun ha, ← ha]
        exact ha ▸ h.ended

theorem Single.scheduler_endRun (h : l.Single) : l.endRun.scheduler = l.scheduler.finished := by
  by_cases hrun : l.inFlight = 0
  · rw [endRun_of_idle hrun]
    simp [EventLoop.scheduler, Scheduler.finished, h.inFlight_eq_zero_iff.mp hrun]
  · have hb : l.busy = true := by
      rwa [h.inFlight_eq_zero_iff, Bool.not_eq_false] at hrun
    cases ha : l.again with
    | true =>
        rw [endRun_of_again hrun ha, h.ended.scheduler_schedule]
        simp [EventLoop.scheduler, Scheduler.finished, Scheduler.changed, hb, ha]
    | false =>
        rw [endRun_of_last hrun ha]
        simp [EventLoop.scheduler, Scheduler.finished, hb, ha]

theorem single_start : start.Single where
  timers := .inr ⟨0, rfl, rfl⟩
  inFlight := rfl
  again := nofun

end EventLoop

end Saltern
