import GraphClient.Proofs.Session.Receiving
import GraphClient.Proofs.Session.Waking
import Mathlib.Data.List.Perm.Basic
import Mathlib.Data.Multiset.Filter

/-!
# The outline of a session

What the outside is told of calls and watchers is decided by a small part of a session: the calls and
the watchers, the tokens, and the executions that have not ended. The `Outline` of a session is this
part, together with what the outside was told. The store, the transport and the order of the tasks are
not in it. So an execution on its way through the pipeline does not change the outline, and neither
do writes and gates; a notification only begins fetches.

The equations below say what every function of a session makes of the outline.
-/

namespace GraphClient

/-- The execution that a task goes on with, if it is not a notification. -/
def Task.execution? : Task → Option Execution
  | .start execution => some execution
  | .resume inFlight => some inFlight.execution
  | .notify _ => none

/-- Whether an event is told to the one who made a call or a watcher. -/
def Event.isTold {α : Type} : Event α → Bool
  | .crossed _ => false
  | _ => true

@[simp] theorem Call.next_cancel {α : Type} (call : Call α) (tokens : Tokens) :
    (call.cancel tokens).next = tokens.next := by
  rw [Call.cancel]
  cases call.refetchToken <;> rfl

/-- Cancelling a call cancels its token and the one of the fetches that it started. -/
theorem Call.mem_canceled_cancel {α : Type} {call : Call α} {tokens : Tokens} {n : Nat} :
    n ∈ (call.cancel tokens).canceled ↔ n = call.token.number ∨
      (∃ token, call.refetchToken = some token ∧ n = token.number) ∨ n ∈ tokens.canceled := by
  rw [Call.cancel]
  cases call.refetchToken with
  | none => simp [Tokens.cancel]
  | some token => simp [Tokens.cancel, or_left_comm]

/-- The part of a session that decides what the outside is told. -/
structure Outline (α : Type) where
  calls : Assoc CallId (Call α)
  watchers : Assoc WatcherId (Watcher α)
  tokens : Tokens
  nextCall : Nat
  /-- The executions that have not ended; one that waits stands as the task that it will be. -/
  tasks : Multiset Task
  told : List (Event α)

namespace Outline

variable {α : Type}

def setCall (o : Outline α) (id : CallId) (call : Call α) : Outline α :=
  { o with calls := Assoc.insert o.calls id call }

def setWatcher (o : Outline α) (id : WatcherId) (watcher : Watcher α) : Outline α :=
  { o with watchers := Assoc.insert o.watchers id watcher }

def add (o : Outline α) (task : Task) : Outline α := { o with tasks := task ::ₘ o.tasks }

def tell (o : Outline α) (event : Event α) : Outline α := { o with told := o.told ++ [event] }

def cancel (o : Outline α) (token : Token) : Outline α :=
  { o with tokens := o.tokens.cancel token }

/-- The watcher once a fetch has begun. -/
def fetching (o : Outline α) (watcher : Watcher α) : Watcher α :=
  { watcher with state := { watcher.state with
      generation := watcher.state.generation + 1, active := some o.tokens.fresh.1 } }

/-- The outline once a fetch of a watcher has begun. -/
def fetchBegun (o : Outline α) (id : WatcherId) (watcher : Watcher α) (control : CacheControl) :
    Outline α :=
  let issued := { o with tokens := o.tokens.fresh.2 }.setWatcher id (o.fetching watcher)
  let freed := match watcher.state.active with
    | none => issued
    | some superseded => issued.cancel superseded
  freed.add (.start ⟨.watch id (watcher.state.generation + 1),
    { watcher.options with control := control }, o.tokens.fresh.1⟩)

theorem watchers_fetchBegun (o : Outline α) (id : WatcherId) (watcher : Watcher α)
    (control : CacheControl) :
    (o.fetchBegun id watcher control).watchers =
      Assoc.insert o.watchers id (o.fetching watcher) := by
  rw [fetchBegun]
  cases watcher.state.active <;> rfl

theorem canceled_fetchBegun (o : Outline α) (id : WatcherId) (watcher : Watcher α)
    (control : CacheControl) (n : Nat) : n ∈ (o.fetchBegun id watcher control).tokens.canceled ↔
      n ∈ o.tokens.canceled ∨ ∃ token, watcher.state.active = some token ∧ token.number = n := by
  rw [fetchBegun]
  cases watcher.state.active with
  | none => simp [add, setWatcher, Tokens.fresh]
  | some superseded =>
    simp [add, setWatcher, cancel, Tokens.cancel, Tokens.fresh, or_comm, eq_comm]

/-- The watcher once it was canceled. -/
def canceling (watcher : Watcher α) : Watcher α :=
  { watcher with state := { watcher.state with
      canceled := true, active := none, subscription := none } }

/-- What the outline becomes when a watcher is canceled. -/
def watcherCanceled (o : Outline α) (id : WatcherId) (watcher : Watcher α) : Outline α :=
  match watcher.state.active with
  | none => o.setWatcher id (canceling watcher)
  | some token =>
    ((o.setWatcher id (canceling watcher)).cancel token).tell (.watched id (.error .canceled))

/-- Fetches of watchers that are started and not canceled begin, one after the other. -/
inductive Fetches : Outline α → Outline α → Prop
  | refl (o : Outline α) : Fetches o o
  | tail {o o' : Outline α} {id : WatcherId} {watcher : Watcher α} (control : CacheControl) :
      Fetches o o' → Assoc.get? o'.watchers id = some watcher → watcher.state.started = true →
      watcher.state.canceled = false → Fetches o (o'.fetchBegun id watcher control)

theorem Fetches.trans {o o' o'' : Outline α} (h : Fetches o o') (h' : Fetches o' o'') :
    Fetches o o'' := by
  induction h' with
  | refl => exact h
  | tail control _ hwatcher hstarted hcanceled ih => exact .tail control ih hwatcher hstarted hcanceled

end Outline

namespace Session

variable {σ τ α : Type}

/-- The executions that have not ended, the ready ones before those that wait. -/
def executions (s : Session σ τ α) : List Task :=
  s.ready.filter (fun task => task.execution?.isSome) ++ s.waiting.map .resume

def outline (s : Session σ τ α) : Outline α :=
  ⟨s.calls, s.watchers, s.tokens, s.nextCall, s.executions, s.events.filter Event.isTold⟩

theorem perm_executions_spawn_start (s : Session σ τ α) (execution : Execution) :
    (s.spawn (.start execution)).executions.Perm (.start execution :: s.executions) := by
  rw [executions, spawn, List.filter_append, List.append_assoc]
  exact List.perm_middle

theorem executions_spawn_notify (s : Session σ τ α) (changed : KeySet) :
    (s.spawn (.notify changed)).executions = s.executions := by
  rw [executions, spawn, List.filter_append]
  exact congrArg (· ++ _) (List.append_nil _)

/-- Waking an execution leaves it among those that have not ended. -/
theorem perm_executions_wake (s : Session σ τ α) (isWoken : InFlight → Bool) :
    (s.wake isWoken).executions.Perm s.executions := by
  have hresume : ∀ woken : List InFlight,
      (woken.map Task.resume).filter (fun task => task.execution?.isSome) = woken.map .resume := by
    intro woken
    refine List.filter_eq_self.mpr fun task htask => ?_
    obtain ⟨inFlight, -, rfl⟩ := List.mem_map.mp htask
    rfl
  rw [executions, wake, List.filter_append, hresume, List.append_assoc, ← List.map_append]
  exact ((List.filter_append_perm isWoken s.waiting).map _).append_left _

@[simp] theorem outline_spawn_start (s : Session σ τ α) (execution : Execution) :
    (s.spawn (.start execution)).outline = s.outline.add (.start execution) := by
  rw [outline, Multiset.coe_eq_coe.mpr (s.perm_executions_spawn_start execution)]
  rfl

@[simp] theorem outline_publish (s : Session σ τ α) (changed : KeySet) :
    (s.publish changed).outline = s.outline := by
  rw [publish]
  split
  · rfl
  · rw [outline, executions_spawn_notify]
    rfl

@[simp] theorem outline_wake (s : Session σ τ α) (isWoken : InFlight → Bool) :
    (s.wake isWoken).outline = s.outline := by
  rw [outline, Multiset.coe_eq_coe.mpr (s.perm_executions_wake isWoken)]
  rfl

@[simp] theorem outline_cancelToken (s : Session σ τ α) (token : Token) :
    (s.cancelToken token).outline = s.outline.cancel token :=
  outline_wake _ _

theorem outline_report_crossings (s : Session σ τ α) (crossings : List Pipeline.Crossing) :
    (s.report (crossings.map .crossed)).outline = s.outline := by
  have hnone : (crossings.map (Event.crossed (α := α))).filter Event.isTold = [] := by
    refine List.filter_eq_nil_iff.mpr fun event hevent => ?_
    obtain ⟨crossing, -, rfl⟩ := List.mem_map.mp hevent
    exact Bool.false_ne_true
  rw [outline, report, List.filter_append, hnone, List.append_nil]
  rfl

theorem outline_report_told (s : Session σ τ α) {event : Event α} (h : event.isTold = true) :
    (s.report [event]).outline = s.outline.tell event := by
  rw [outline, report, List.filter_append, List.filter_cons_of_pos h, List.filter_nil]
  rfl

theorem outline_setWatcherState {s : Session σ τ α} {id : WatcherId} {watcher : Watcher α}
    (h : Assoc.get? s.watchers id = some watcher) (state : WatcherState) :
    (s.setWatcherState id state).outline =
      s.outline.setWatcher id { watcher with state := state } := by
  rw [setWatcherState, h]
  rfl

section Pipeline

variable [Storage σ]

theorem outline_receive (s : Session σ τ α) (token : Token) (request : Pipeline.Request)
    (passed : List Pipeline.Interceptor) (outcome : Pipeline.Outcome) :
    (s.receive token request passed outcome).2.outline = s.outline := by
  rw [receive]
  exact (outline_report_crossings _ _).trans (outline_publish _ _)

theorem outline_await (s : Session σ τ α) (inFlight : InFlight) :
    (s.await inFlight).2.outline = s.outline := by
  rw [await]
  split
  · exact s.outline_receive _ _ _ _
  · rfl

theorem outline_send (client : Client τ) (s : Session σ τ α) (execution : Execution)
    (request : Pipeline.Request) (passed : List Pipeline.Interceptor) :
    (send client s execution request passed).2.outline = s.outline := by
  rw [send]
  split
  · exact s.outline_receive _ _ _ _
  · exact outline_await _ _

theorem outline_descend (client : Client τ) (s : Session σ τ α) (execution : Execution) :
    (s.descend client execution).2.outline = s.outline := by
  have hreport := s.outline_report_crossings
    (Pipeline.descend [] client.interceptors execution.options.request).crossings
  rw [descend]
  refine Eq.trans ?_ hreport
  split
  · exact outline_report_crossings _ _
  · split
    · exact outline_report_crossings _ _
    · exact outline_send client _ _ _ _

theorem outline_dispatch (client : Client τ) (s : Session σ τ α) (execution : Execution) :
    (s.dispatch client execution).2.outline = s.outline := by
  rw [dispatch]
  split
  · rfl
  · exact s.outline_descend client execution

theorem outline_resume (s : Session σ τ α) (inFlight : InFlight) :
    (s.resume inFlight).2.outline = s.outline := by
  rw [resume]
  split
  · rfl
  · exact s.outline_await inFlight

theorem outline_writeAndPublish (s : Session σ τ α) (operation : Operation) (data : Json.Object) :
    (s.writeAndPublish operation data).2.outline = s.outline := by
  rw [writeAndPublish]
  exact outline_publish _ _

theorem await_waits (s : Session σ τ α) (inFlight : InFlight) {waiting : InFlight}
    (h : (s.await inFlight).1 = .waits waiting) : waiting = inFlight := by
  rw [await] at h
  split at h
  · cases h
  · cases h
    rfl

theorem execution_of_send_waits {client : Client τ} {s : Session σ τ α} {execution : Execution}
    {request : Pipeline.Request} {passed : List Pipeline.Interceptor} {waiting : InFlight}
    (h : (send client s execution request passed).1 = .waits waiting) :
    waiting.execution = execution := by
  rw [send] at h
  split at h
  · cases h
  · rw [await_waits _ _ h]

theorem execution_of_dispatch_waits {client : Client τ} {s : Session σ τ α}
    {execution : Execution} {waiting : InFlight}
    (h : (s.dispatch client execution).1 = .waits waiting) : waiting.execution = execution := by
  rw [dispatch] at h
  split at h
  · cases h
  · rw [descend] at h
    split at h
    · cases h
    · split at h
      · cases h
      · exact execution_of_send_waits h

theorem resume_waits {s : Session σ τ α} {inFlight waiting : InFlight}
    (h : (s.resume inFlight).1 = .waits waiting) : waiting = inFlight := by
  rw [resume] at h
  split at h
  · cases h
  · exact s.await_waits inFlight h

end Pipeline

theorem outline_fetchBegun {s : Session σ τ α} {id : WatcherId} {watcher : Watcher α}
    (h : Assoc.get? s.watchers id = some watcher) (control : CacheControl) :
    (s.fetchBegun id watcher control).outline = s.outline.fetchBegun id watcher control := by
  rw [fetchBegun, Outline.fetchBegun]
  have hset := outline_setWatcherState (s := { s with tokens := s.tokens.fresh.2 }) h
    { watcher.state with
      generation := watcher.state.generation + 1, active := some s.tokens.fresh.1 }
  cases watcher.state.active with
  | none =>
    dsimp only
    rw [outline_spawn_start]
    exact congrArg (Outline.add · _) hset
  | some superseded =>
    dsimp only
    rw [outline_spawn_start]
    refine congrArg (Outline.add · _) ?_
    exact (outline_cancelToken _ superseded).trans (congrArg (Outline.cancel · _) hset)

theorem fetches_fetch (s : Session σ τ α) (id : WatcherId) (control : CacheControl) :
    s.outline.Fetches (s.fetch id control).outline := by
  cases h : Assoc.get? s.watchers id with
  | none =>
    rw [fetch, h]
    exact .refl _
  | some watcher =>
    rw [fetch_eq h]
    split
    · next hlive =>
      rw [Bool.and_eq_true, Bool.not_eq_true'] at hlive
      rw [outline_fetchBegun h]
      exact .tail control (.refl _) h hlive.1 hlive.2
    · exact .refl _

theorem fetches_refetch (s : Session σ τ α) (id : WatcherId) :
    s.outline.Fetches (s.refetch id).outline := by
  rw [refetch]
  split
  · exact .refl _
  · exact s.fetches_fetch id _

theorem fetches_foldl {β : Type} {f : Session σ τ α → β → Session σ τ α}
    (hf : ∀ (s : Session σ τ α) x, s.outline.Fetches (f s x).outline) (s : Session σ τ α)
    (xs : List β) :
    s.outline.Fetches (xs.foldl f s).outline := by
  induction xs generalizing s with
  | nil => exact .refl _
  | cons x xs ih => exact (hf s x).trans (ih (f s x))

/-- Whatever a notification says, it only begins fetches. -/
theorem fetches_notify (s : Session σ τ α) (changed : KeySet) :
    s.outline.Fetches (s.notify changed).outline := by
  rw [notify]
  exact fetches_foldl (fun s (notice : Store.Notice WatcherId) => s.fetches_refetch _) s _

theorem outline_finishFetch_of_none {s : Session σ τ α} {id : WatcherId}
    (h : Assoc.get? s.watchers id = none) (generation : Nat) (ending : Ending Json) :
    (s.finishFetch id generation ending).outline = s.outline := by
  rw [finishFetch, h]
  rfl

/-- The end of a fetch sets the state of its watcher, and is told where it is delivered. -/
theorem outline_finishFetch {s : Session σ τ α} {id : WatcherId} {watcher : Watcher α}
    (h : Assoc.get? s.watchers id = some watcher) (generation : Nat) (ending : Ending Json) :
    let accepted := watcher.state.accept id s.store generation ending
    let ended := s.outline.setWatcher id { watcher with state := accepted.state }
    (s.finishFetch id generation ending).outline =
      if accepted.delivers then
        ended.tell (.watched id (ending.bind (Response.decode watcher.decoder)))
      else ended := by
  let accepted := watcher.state.accept id s.store generation ending
  have hset := outline_setWatcherState (s := { s with store := accepted.store }) h accepted.state
  rw [finishFetch, h]
  dsimp only
  split
  · refine (outline_report_told _ ?_).trans (congrArg (Outline.tell · _) hset)
    rfl
  · exact hset

theorem watch_of_started {s : Session σ τ α} {id : WatcherId} {watcher : Watcher α}
    (h : Assoc.get? s.watchers id = some watcher) (hstarted : watcher.state.started = true) :
    s.watch id = .error .alreadyExecuted := by
  rw [watch_eq h, if_pos hstarted]

/-- A watcher that was canceled before it is started is told so. -/
theorem watch_of_canceled {s : Session σ τ α} {id : WatcherId} {watcher : Watcher α}
    (h : Assoc.get? s.watchers id = some watcher) (hstarted : watcher.state.started = false)
    (hcanceled : watcher.state.canceled = true) :
    ∃ s', s.watch id = .ok s' ∧ s'.outline =
      (s.outline.setWatcher id { watcher with state := { watcher.state with started := true } }).tell
        (.watched id (.error .canceled)) := by
  refine ⟨(s.setWatcherState id { watcher.state with started := true }).report
    [.watched id (.error .canceled)], ?_, ?_⟩
  · rw [watch_eq h, hstarted, hcanceled]
    rfl
  · rw [outline_report_told _ rfl, outline_setWatcherState h]

/-- A watcher that is started begins its first fetch. -/
theorem watch_of_live {s : Session σ τ α} {id : WatcherId} {watcher : Watcher α}
    (h : Assoc.get? s.watchers id = some watcher) (hstarted : watcher.state.started = false)
    (hcanceled : watcher.state.canceled = false) :
    ∃ s', s.watch id = .ok s' ∧ (s.outline.setWatcher id
      { watcher with state := { watcher.state with started := true } }).Fetches s'.outline := by
  have hfetches := (s.watcherRegistered id watcher).fetches_fetch id watcher.options.control
  refine ⟨(s.watcherRegistered id watcher).fetch id watcher.options.control, ?_, ?_⟩
  · rw [watch_eq h, hstarted, hcanceled]
    rfl
  · have hmarked := outline_setWatcherState h { watcher.state with started := true }
    rwa [← hmarked]

theorem cancelWatcher_of_canceled {s : Session σ τ α} {id : WatcherId} {watcher : Watcher α}
    (h : Assoc.get? s.watchers id = some watcher) (hcanceled : watcher.state.canceled = true) :
    s.cancelWatcher id = s := by
  rw [cancelWatcher, h]
  simp only [WatcherState.cancel_of_canceled hcanceled]

/-- A watcher that is canceled is told so while its newest fetch is out. -/
theorem outline_cancelWatcher {s : Session σ τ α} {id : WatcherId} {watcher : Watcher α}
    (h : Assoc.get? s.watchers id = some watcher) (hcanceled : watcher.state.canceled = false) :
    (s.cancelWatcher id).outline = s.outline.watcherCanceled id watcher := by
  have hset := outline_setWatcherState h { watcher.state with
    canceled := true, active := none, subscription := none }
  have hunregister : ∀ (s : Session σ τ α) (name : String) (started : Bool),
      (s.unregister id name started).outline = s.outline := by
    intro s name started
    cases started <;> rfl
  rw [cancelWatcher, h, Outline.watcherCanceled]
  simp only [WatcherState.cancel, hcanceled]
  -- ending the subscription changes the store only
  cases watcher.state.subscription <;> cases watcher.state.active with
  | none => exact (hunregister _ _ _).trans hset
  | some token =>
    refine (outline_report_told _ rfl).trans ?_
    rw [outline_cancelToken, hunregister]
    exact congrArg (fun o : Outline α => (o.cancel token).tell _) hset

theorem outline_execute {s : Session σ τ α} {id : CallId} {call : Call α}
    (h : Assoc.get? s.calls id = some call) :
    (s.execute id).outline = s.outline.add (.start ⟨.execute id, call.options, call.token⟩) := by
  rw [execute, h]
  exact s.outline_spawn_start _

theorem startCall_of_executed {s : Session σ τ α} {id : CallId} {call : Call α}
    (h : Assoc.get? s.calls id = some call) (hexecuted : call.executed = true) :
    s.startCall id = .error .alreadyExecuted := by
  rw [startCall, h]
  simp only [Call.start_of_executed hexecuted]
  rfl

theorem startCall_of_not_executed {s : Session σ τ α} {id : CallId} {call : Call α}
    (h : Assoc.get? s.calls id = some call) (hexecuted : call.executed = false) :
    s.startCall id = .ok (s.setCall id { call with executed := true }).track := by
  rw [startCall, h]
  simp only [Call.start, hexecuted]
  rfl

theorem enqueue_of_executed {s : Session σ τ α} {id : CallId} {call : Call α}
    (h : Assoc.get? s.calls id = some call) (hexecuted : call.executed = true) :
    s.enqueue id = .error .alreadyExecuted := by
  rw [enqueue, h]
  simp only [startCall_of_executed h hexecuted]
  rfl

theorem enqueue_of_not_executed {s : Session σ τ α} {id : CallId} {call : Call α}
    (h : Assoc.get? s.calls id = some call) (hexecuted : call.executed = false) :
    s.enqueue id = .ok ((s.setCall id { call with executed := true }).track.spawn
      (.start ⟨.enqueue id, call.options, call.token⟩)) := by
  rw [enqueue, h]
  simp only [startCall_of_not_executed h hexecuted]
  rfl

theorem outline_cancelCall {s : Session σ τ α} {id : CallId} {call : Call α}
    (h : Assoc.get? s.calls id = some call) :
    (s.cancelCall id).outline = { s.outline with tokens := call.cancel s.tokens } := by
  rw [cancelCall, h]
  exact outline_wake _ _

end Session

namespace Outline

variable {α : Type}

/-- The fetches of operations begin, under a token that is canceled with that of a call. -/
def refetching (o : Outline α) (parent : Token) (operations : List Operation) : Outline α :=
  let token := (o.tokens.child parent).1
  operations.foldl
    (fun o operation => o.add
      (.start ⟨.refetch, { operation := operation, control := .networkOnly }, token⟩))
    { o with tokens := (o.tokens.child parent).2 }

/-- A call completes: it is marked so, and starts what it fetches after a success. -/
inductive Completes (o : Outline α) (id : CallId) (call : Call α) (options : CallOptions)
    (ending : Ending Json) : Outline α → Prop
  | alone : (ending.isOk && options.refetches) = false →
      Completes o id call options ending (o.setCall id { call with completed := true })
  | refetching {fetched : Outline α} : (ending.isOk && options.refetches) = true →
      ((o.setCall id { call with completed := true }).refetching call.token
        options.refetchOperations).Fetches fetched →
      Completes o id call options ending (fetched.setCall id
        { call with completed := true, refetchToken := some (o.tokens.child call.token).1 })

end Outline

namespace Session

variable {σ τ α : Type}

theorem outline_foldl_refetchOperation (token : Token) (s : Session σ τ α)
    (operations : List Operation) :
    (operations.foldl (refetchOperation token) s).outline =
      operations.foldl (fun o operation => o.add
        (.start ⟨.refetch, { operation := operation, control := .networkOnly }, token⟩))
        s.outline := by
  induction operations generalizing s with
  | nil => rfl
  | cons operation operations ih =>
    rw [List.foldl_cons, List.foldl_cons, ih, refetchOperation, outline_spawn_start]
    rfl

/-- What a call starts once it has succeeded: fetches of operations, then fetches of watchers. -/
theorem outline_startRefetches (s : Session σ τ α) (id : CallId) (call : Call α)
    (options : CallOptions) :
    ∃ fetched, (s.outline.refetching call.token options.refetchOperations).Fetches fetched ∧
      (s.startRefetches id call options).outline =
        fetched.setCall id { call with refetchToken := some (s.tokens.child call.token).1 } := by
  let token := (s.tokens.child call.token).1
  let issued : Session σ τ α := { s with tokens := (s.tokens.child call.token).2 }
  let begun := options.refetchOperations.foldl (refetchOperation token) issued
  have hbegun : begun.outline = s.outline.refetching call.token options.refetchOperations :=
    outline_foldl_refetchOperation token issued options.refetchOperations
  have hfetches := fetches_foldl fetches_refetch begun
    (begun.tracker.activeWatchers options.refetchNames)
  rw [hbegun] at hfetches
  exact ⟨_, hfetches, rfl⟩

theorem completes_completeCall {s : Session σ τ α} {id : CallId} {call : Call α}
    (h : Assoc.get? s.calls id = some call) (options : CallOptions) (ending : Ending Json) :
    (s.completeCall id options ending).1 = some (ending.bind (Response.decode call.decoder)) ∧
      s.outline.Completes id call options ending (s.completeCall id options ending).2.outline := by
  let completed : Call α := { call with completed := true }
  rw [completeCall, h]
  refine ⟨rfl, ?_⟩
  dsimp only
  split
  · next hrefetches =>
    obtain ⟨fetched, hfetches, houtline⟩ :=
      (s.setCall id completed).outline_startRefetches id completed options
    rw [houtline]
    exact .refetching hrefetches hfetches
  · next hrefetches => exact .alone (Bool.eq_false_iff.mpr hrefetches)

theorem outline_finishExecute_of_none {s : Session σ τ α} {id : CallId}
    (h : Assoc.get? s.calls id = none) (options : CallOptions) (ending : Ending Json) :
    (s.finishExecute id options ending).outline = s.outline := by
  rw [finishExecute, completeCall, h]
  rfl

theorem outline_finishEnqueue_of_none {s : Session σ τ α} {id : CallId}
    (h : Assoc.get? s.calls id = none) (options : CallOptions) (ending : Ending Json) :
    (s.finishEnqueue id options ending).outline = s.outline := by
  rw [finishEnqueue, completeCall, h]
  rfl

theorem outline_finishExecute {s : Session σ τ α} {id : CallId} {call : Call α}
    (h : Assoc.get? s.calls id = some call) (options : CallOptions) (ending : Ending Json) :
    ∃ completed, s.outline.Completes id call options ending completed ∧
      (s.finishExecute id options ending).outline =
        completed.tell (.executed id (ending.bind (Response.decode call.decoder))) := by
  obtain ⟨hending, hcompletes⟩ := completes_completeCall h options ending
  refine ⟨_, hcompletes, ?_⟩
  rw [finishExecute]
  split
  · next heq =>
    rw [heq] at hending
    cases hending
  · next heq =>
    rw [heq] at hending ⊢
    cases hending
    exact outline_report_told _ rfl

theorem outline_finishEnqueue {s : Session σ τ α} {id : CallId} {call : Call α}
    (h : Assoc.get? s.calls id = some call) (options : CallOptions) (ending : Ending Json) :
    ∃ completed, s.outline.Completes id call options ending completed ∧
      (s.finishEnqueue id options ending).outline =
        completed.tell (.delivered id (ending.bind (Response.decode call.decoder))) := by
  obtain ⟨hending, hcompletes⟩ := completes_completeCall h options ending
  refine ⟨_, hcompletes, ?_⟩
  rw [finishEnqueue]
  split
  · next heq =>
    rw [heq] at hending
    cases hending
  · next told completed heq =>
    rw [heq] at hending ⊢
    cases hending
    have htold : (Event.delivered id (ending.bind (Response.decode call.decoder))).isTold = true :=
      rfl
    exact completed.outline_report_told htold

end Session

end GraphClient
