/-!
# Computations that report events

A `Run` is the list of events that a computation reported and the way it ended. What was reported
before a failure is kept, so a failing run still tells what it did.
-/

namespace GraphApi

/-- The events a computation reported, in order, and its outcome. -/
structure Run (ω ε α : Type) where
  events : List ω
  outcome : Except ε α

namespace Run

variable {ω ε α β : Type}

def done (result : α) : Run ω ε α := ⟨[], .ok result⟩

def fail (cause : ε) : Run ω ε α := ⟨[], .error cause⟩

def emit (event : ω) : Run ω ε Unit := ⟨[event], .ok ()⟩

def emitAll (events : List ω) : Run ω ε Unit := ⟨events, .ok ()⟩

def andThen (first : Run ω ε α) (next : α → Run ω ε β) : Run ω ε β :=
  match first.outcome with
  | .ok result => ⟨first.events ++ (next result).events, (next result).outcome⟩
  | .error cause => ⟨first.events, .error cause⟩

instance : Monad (Run ω ε) where
  pure := done
  bind := andThen

def ofExcept (outcome : Except ε α) : Run ω ε α := ⟨[], outcome⟩

@[simp] theorem pure_events (result : α) : (pure result : Run ω ε α).events = [] := rfl

@[simp] theorem pure_outcome (result : α) : (pure result : Run ω ε α).outcome = .ok result := rfl

/-- Events of a sequence: those of the first part, then those of the second if the first
succeeds. -/
theorem bind_events (first : Run ω ε α) (next : α → Run ω ε β) :
    (first >>= next).events = first.events ++ match first.outcome with
      | .ok result => (next result).events
      | .error _ => [] := by
  cases h : first.outcome <;> simp [bind, andThen, h]

/-- A run that fails ends the runs after it. -/
theorem bind_outcome (first : Run ω ε α) (next : α → Run ω ε β) :
    (first >>= next).outcome = match first.outcome with
      | .ok result => (next result).outcome
      | .error cause => .error cause := by
  cases h : first.outcome <;> simp [bind, andThen, h]

/-- Runs succeed together if each one does. -/
theorem bind_ok_iff {first : Run ω ε α} {next : α → Run ω ε β} {result : β} :
    (first >>= next).outcome = .ok result ↔
      ∃ middle, first.outcome = .ok middle ∧ (next middle).outcome = .ok result := by
  rw [bind_outcome]
  cases first.outcome <;> simp

end Run

inductive Level where
  | debug | info | warning | error | critical
deriving DecidableEq, Repr

def Level.rank : Level → Nat
  | .debug => 10
  | .info => 20
  | .warning => 30
  | .error => 40
  | .critical => 50

def Level.word : Level → String
  | .debug => "DEBUG"
  | .info => "INFO"
  | .warning => "WARNING"
  | .error => "ERROR"
  | .critical => "CRITICAL"

structure Notice where
  level : Level
  content : String
deriving DecidableEq, Repr

end GraphApi
