import Saltern.Log.Level

/-!
# Reports

A computation that may fail, and the messages it leaves on its way. Messages up to the failure
stay.
-/

namespace Saltern

/-- Which part of the program speaks. -/
inductive Speaker
  | program
  | config
  | pins
  | check
  | runner
  | starter
  | watch
  | commandLine
  deriving DecidableEq, Repr

/-- The label in front of a speaker's lines. -/
def Speaker.label : Speaker → Text
  | .program => "[brine]"
  | .config => "[brine][config]"
  | .pins => "[brine][versions]"
  | .check => "[brine][check]"
  | .runner => "[brine][runner]"
  | .starter => "[brine][init]"
  | .watch => "[brine][watch]"
  | .commandLine => "[brine][cli]"

/-- A message of some part of the program. -/
structure Message where
  speaker : Speaker
  severity : Severity
  text : Text
  deriving DecidableEq, Repr

/-- The line of a message. -/
def Message.line (m : Message) : Text := m.speaker.label ++ ' ' :: m.text

/-- The messages that a level lets through. -/
def Message.admitted (level : Level) (ms : List Message) : List Message :=
  ms.filter fun m ↦ level.admits m.severity

/-- Messages, and a result or the reason why there is none. -/
structure Report (ε α : Type) where
  messages : List Message
  result : Except ε α

namespace Report

variable {ε α β : Type}

def ok (a : α) : Report ε α := ⟨[], .ok a⟩

def fail (e : ε) : Report ε α := ⟨[], .error e⟩

/-- A message and nothing else. -/
def tell (speaker : Speaker) (severity : Severity) (text : Text) : Report ε Unit :=
  ⟨[⟨speaker, severity, text⟩], .ok ()⟩

/-- A result without messages. -/
def ofExcept {δ : Type} (wrap : δ → ε) : Except δ α → Report ε α
  | .ok a => ok a
  | .error d => fail (wrap d)

/-- Goes on from a result; the messages of both parts stand in order. -/
def andThen (r : Report ε α) (f : α → Report ε β) : Report ε β :=
  match r.result with
  | .error e => ⟨r.messages, .error e⟩
  | .ok a => ⟨r.messages ++ (f a).messages, (f a).result⟩

instance : Monad (Report ε) where
  pure := ok
  bind := andThen

@[simp] theorem result_pure (a : α) : (pure a : Report ε α).result = .ok a := rfl

@[simp] theorem messages_pure (a : α) : (pure a : Report ε α).messages = [] := rfl

@[simp] theorem result_fail (e : ε) : (fail e : Report ε α).result = .error e := rfl

@[simp] theorem result_tell (s : Speaker) (v : Severity) (t : Text) :
    (tell s v t : Report ε Unit).result = .ok () := rfl

theorem result_bind (r : Report ε α) (f : α → Report ε β) :
    (r >>= f).result = r.result.bind fun a ↦ (f a).result := by
  change (andThen r f).result = _
  unfold andThen
  cases h : r.result <;> rfl

end Report

end Saltern
