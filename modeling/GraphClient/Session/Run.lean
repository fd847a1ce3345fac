import GraphClient.Session.Calling
import GraphClient.Session.Dispatch

/-!
# Running the tasks of a session

Tasks are run in the order in which they became ready, each until it ends or has to wait. A session
may never come to rest, for watchers may wake each other for ever, so it is run for a number of steps.
-/

namespace GraphClient.Session

variable {σ τ α : Type} [Storage σ]

/-- What a poll came to, for the execution that was polled. -/
abbrev Polled (σ τ α : Type) := Option (Execution × Progress) × Session σ τ α

omit [Storage σ] in
def polled (execution : Execution) (result : Progress × Session σ τ α) : Polled σ τ α :=
  (some (execution, result.1), result.2)

/-- Runs the first poll of an execution. An awaited call is started by it. -/
def pollStart (client : Client τ) (s : Session σ τ α) (execution : Execution) : Polled σ τ α :=
  match execution.purpose with
  | .execute id =>
    match s.startCall id with
    | .error misuse => (none, s.report [.misused id misuse])
    | .ok s => polled execution (s.dispatch client execution)
  | _ => polled execution (s.dispatch client execution)

/-- Runs a task as far as its execution, if it has one, comes through the pipeline. -/
def poll (client : Client τ) (s : Session σ τ α) : Task → Polled σ τ α
  | .start execution => s.pollStart client execution
  | .resume inFlight => polled inFlight.execution (s.resume inFlight)
  | .notify changed => (none, s.notify changed)

omit [Storage σ] in
/-- Ends a polled execution, or lets it wait. -/
def conclude (s : Session σ τ α) (execution : Execution) : Progress → Session σ τ α
  | .ended ending => s.finish execution ending
  | .waits inFlight => { s with waiting := s.waiting ++ [inFlight] }

/-- Runs a task until it ends or has to wait. -/
def runTask (client : Client τ) (s : Session σ τ α) (task : Task) : Session σ τ α :=
  match s.poll client task with
  | (none, s) => s
  | (some (execution, progress), s) => s.conclude execution progress

/-- Runs the next task, if there is one. -/
def step? (client : Client τ) (s : Session σ τ α) : Option (Session σ τ α) :=
  match s.ready with
  | [] => none
  | task :: rest => some ({ s with ready := rest }.runTask client task)

/-- Runs tasks until none is ready, at most this many. -/
def settle (client : Client τ) : Nat → Session σ τ α → Session σ τ α
  | 0, s => s
  | steps + 1, s =>
    match s.step? client with
    | none => s
    | some s => settle client steps s

end GraphClient.Session
