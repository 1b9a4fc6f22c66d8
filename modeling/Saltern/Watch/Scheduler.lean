/-!
# Scheduling runs

Changes are gathered for a while before a run starts: each one sets the timer anew. Runs never
overlap; a timer that goes off during a run makes another run follow it.
-/

namespace Saltern

/-- What a watch waits for. -/
structure Scheduler where
  /-- Whether a timer is pending. -/
  pending : Bool
  /-- Whether a run is under way. -/
  running : Bool
  /-- Whether another run is to follow the one under way. -/
  again : Bool
  deriving DecidableEq, Repr

namespace Scheduler

/-- A watch starts by waiting for its first run. -/
def start : Scheduler := ⟨true, false, false⟩

/-- A change was seen. -/
def changed (s : Scheduler) : Scheduler := { s with pending := true }

/-- Whether the timer starts a run when it goes off. -/
def startsRun (s : Scheduler) : Bool := s.pending && !s.running

/-- The timer goes off. -/
def fired (s : Scheduler) : Scheduler :=
  if s.pending then ⟨false, true, s.running || s.again⟩ else s

/-- The run under way comes to its end. -/
def finished (s : Scheduler) : Scheduler :=
  if s.running then ⟨s.pending || s.again, false, false⟩ else s

@[simp] theorem pending_changed (s : Scheduler) : s.changed.pending = true := rfl

@[simp] theorem running_changed (s : Scheduler) : s.changed.running = s.running := rfl

@[simp] theorem again_changed (s : Scheduler) : s.changed.again = s.again := rfl

end Scheduler

end Saltern
