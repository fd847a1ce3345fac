import GraphClient.Client.Basic
import GraphClient.Session.Watcher

/-!
# Sessions

A `Session` is everything that changes while a client is used. All work is done by tasks. A session
never runs a task on its own: tasks are put at the end of the queue `ready`, and whoever runs the
session takes them from there. An execution whose answer is held back stands in `waiting` until its
gate is opened or its token is canceled, and is then ready again.

What happens is recorded in order: the requests that were sent, the field keys that were published,
and what the outside was told.
-/

namespace GraphClient

inductive Purpose where
  | execute (call : CallId)
  | enqueue (call : CallId)
  /-- To bring the store up to date after a call; nobody is told. -/
  | refetch
  | watch (watcher : WatcherId) (generation : Nat)

/-- An operation that is executed under a token. -/
structure Execution where
  purpose : Purpose
  options : CallOptions
  token : Token

structure InFlight where
  execution : Execution
  request : Pipeline.Request
  /-- The interceptors that let it pass, the innermost first. -/
  passed : List Pipeline.Interceptor
  exchange : Http.Exchange

/-- Something that can be run until it ends or has to wait. -/
inductive Task where
  | start (execution : Execution)
  | resume (inFlight : InFlight)
  /-- Tell the watchers that depend on one of these field keys. -/
  | notify (changed : KeySet)

inductive Event (α : Type) where
  | executed (call : CallId) (ending : Ending α)
  /-- An awaited call could not be executed. -/
  | misused (call : CallId) (misuse : Misuse)
  | delivered (call : CallId) (ending : Ending α)
  | watched (watcher : WatcherId) (ending : Ending α)
  | crossed (crossing : Pipeline.Crossing)

structure Session (σ τ α : Type) where
  store : Store σ WatcherId
  transport : τ
  tracker : Tracker := {}
  tokens : Tokens := {}
  calls : Assoc CallId (Call α) := []
  nextCall : Nat := 0
  watchers : Assoc WatcherId (Watcher α) := []
  /-- The tasks that can run, the next one first. -/
  ready : List Task := []
  waiting : List InFlight := []
  openGates : List String := []
  /-- The requests that were sent, in order. -/
  requests : List Http.Request := []
  /-- The changed field keys that were published, in order. -/
  published : List KeySet := []
  /-- What the outside was told, in order. -/
  events : List (Event α) := []

namespace Session

variable {σ τ α : Type}

def spawn (s : Session σ τ α) (task : Task) : Session σ τ α := { s with ready := s.ready ++ [task] }

def report (s : Session σ τ α) (events : List (Event α)) : Session σ τ α :=
  { s with events := s.events ++ events }

/-- Counts an execution that begins. -/
def track (s : Session σ τ α) : Session σ τ α := { s with tracker := s.tracker.track }

def release (s : Session σ τ α) : Session σ τ α := { s with tracker := s.tracker.release }

/-- Puts the waiting executions of a kind at the end of the queue, in their order. -/
def wake (s : Session σ τ α) (isWoken : InFlight → Bool) : Session σ τ α :=
  { s with
    ready := s.ready ++ (s.waiting.filter isWoken).map .resume
    waiting := s.waiting.filter fun inFlight => !isWoken inFlight }

def wakeCanceled (s : Session σ τ α) : Session σ τ α :=
  s.wake fun inFlight => s.tokens.isCanceled inFlight.execution.token

def cancelToken (s : Session σ τ α) (token : Token) : Session σ τ α :=
  { s with tokens := s.tokens.cancel token }.wakeCanceled

def openGate (s : Session σ τ α) (gate : String) : Session σ τ α :=
  { s with openGates := gate :: s.openGates }.wake fun inFlight => inFlight.exchange.gate == some gate

/-- Whether an exchange is not held back. -/
def hasArrived (s : Session σ τ α) (exchange : Http.Exchange) : Bool :=
  match exchange.gate with
  | none => true
  | some gate => s.openGates.contains gate

/-- Has the watchers told of changed field keys; nobody is told of none. -/
def publish (s : Session σ τ α) (changed : KeySet) : Session σ τ α :=
  match Store.notification? changed with
  | none => s
  | some changed => { s with published := s.published ++ [changed] }.spawn (.notify changed)

@[simp] theorem publish_empty (s : Session σ τ α) : s.publish ∅ = s := rfl

/-- Changed field keys are published by a task, unless there are none. -/
theorem publish_cases (s : Session σ τ α) (changed : KeySet) :
    changed = ∅ ∧ s.publish changed = s ∨
      s.publish changed =
        { s with published := s.published ++ [changed] }.spawn (.notify changed) := by
  rw [publish, Store.notification?]
  by_cases hempty : changed.isEmpty = true
  · rw [if_pos hempty]
    exact .inl ⟨KeySet.isEmpty_iff.mp hempty, rfl⟩
  · rw [if_neg hempty]
    exact .inr rfl

theorem store_publish (s : Session σ τ α) (changed : KeySet) : (s.publish changed).store = s.store := by
  rcases s.publish_cases changed with ⟨-, hsame⟩ | hspawns
  · rw [hsame]
  · rw [hspawns]
    rfl

end Session

end GraphClient
