import GraphClient.Proofs.Session.Moving
import GraphClient.Proofs.Session.Sections
import GraphClient.Proofs.Session.Tracker

/-!
# What the count of a session is made of

The tracker of a session counts the executions that have begun, until their end has been dealt with,
and the registered watchers. An awaited call is counted from its first poll on, any other execution
from the moment that its task is there. A step of a task keeps the accounts (`Tracked`), registers
nobody, and neither starts nor cancels a watcher; registrations and these two marks are made by the
sections of operations on watchers alone.
-/

namespace GraphClient

namespace Outline

variable {α : Type}

/-- The name under which a watcher is registered, and whether it is started and canceled. -/
def profile (o : Outline α) (id : WatcherId) : Option (String × Bool × Bool) :=
  (Assoc.get? o.watchers id).map fun watcher =>
    (watcher.options.operation.name, watcher.state.started, watcher.state.canceled)

/-- The executions that are counted; an awaited call is not before its first poll. -/
def guards (o : Outline α) : Nat := o.tasks.countP fun task => task.begins?.isNone = true

/-- The calls that are about to be started are there. -/
def Known (o : Outline α) : Prop :=
  ∀ task ∈ o.tasks, ∀ id, task.begins? = some id → (Assoc.get? o.calls id).isSome = true

theorem guards_add (o : Outline α) {task : Task} (h : task.begins? = none) :
    (o.add task).guards = o.guards + 1 :=
  Multiset.countP_cons_of_pos (p := fun task : Task => task.begins?.isNone = true) _
    (Option.isNone_iff_eq_none.mpr h)

theorem guards_add_of_begins? (o : Outline α) {task : Task} {id : CallId}
    (h : task.begins? = some id) : (o.add task).guards = o.guards := by
  refine Multiset.countP_cons_of_neg (p := fun task : Task => task.begins?.isNone = true) _ ?_
  rw [h]
  exact Bool.false_ne_true

theorem Known.add {o : Outline α} (h : o.Known) {task : Task}
    (htask : ∀ id, task.begins? = some id → (Assoc.get? o.calls id).isSome = true) :
    (o.add task).Known := by
  intro other hother
  rcases Multiset.mem_cons.mp hother with rfl | hmem
  · exact htask
  · exact h other hmem

theorem Known.of_add_self {o : Outline α} {task : Task} (h : (o.add task).Known) {id : CallId}
    (hid : task.begins? = some id) : (Assoc.get? o.calls id).isSome = true :=
  h task (Multiset.mem_cons_self task o.tasks) id hid

theorem Known.of_add {o : Outline α} {task : Task} (h : (o.add task).Known) : o.Known :=
  fun other hother => h other (Multiset.mem_cons_of_mem hother)

end Outline

namespace Session

variable {σ τ α : Type}

/-- A step that keeps the accounts, whatever else is counted. -/
structure Balanced (s s' : Session σ τ α) : Prop where
  accounts : ∀ n, s.tracker.Accounts (n + s.outline.guards) →
    s'.tracker.Accounts (n + s'.outline.guards)
  known : s.outline.Known → s'.outline.Known

namespace Balanced

theorem refl (s : Session σ τ α) : Balanced s s := ⟨fun _ h => h, fun h => h⟩

theorem trans {s s' s'' : Session σ τ α} (h : Balanced s s') (h' : Balanced s' s'') :
    Balanced s s'' where
  accounts n hn := h'.accounts n (h.accounts n hn)
  known hs := h'.known (h.known hs)

/-- A step that leaves the tracker and the executions as they are. -/
theorem of_eq {s s' : Session σ τ α} (htracker : s'.tracker = s.tracker)
    (htasks : s'.outline.tasks = s.outline.tasks)
    (hcalls : ∀ id, (Assoc.get? s.calls id).isSome = true →
      (Assoc.get? s'.calls id).isSome = true) : Balanced s s' where
  accounts n hn := by
    rw [htracker, Outline.guards, htasks]
    exact hn
  known hs task htask id hid := by
    rw [htasks] at htask
    exact hcalls id (hs task htask id hid)

end Balanced

/-- A step that keeps the accounts, and neither registers, starts nor cancels a watcher. -/
structure Tracked (s s' : Session σ τ α) : Prop extends Balanced s s' where
  watchers : s'.tracker.watchers = s.tracker.watchers
  profile : ∀ id, s'.outline.profile id = s.outline.profile id

namespace Tracked

theorem refl (s : Session σ τ α) : Tracked s s := ⟨.refl s, rfl, fun _ => rfl⟩

theorem trans {s s' s'' : Session σ τ α} (h : Tracked s s') (h' : Tracked s' s'') :
    Tracked s s'' where
  toBalanced := h.toBalanced.trans h'.toBalanced
  watchers := h'.watchers.trans h.watchers
  profile id := (h'.profile id).trans (h.profile id)

theorem of_eq {s s' : Session σ τ α} (htracker : s'.tracker = s.tracker)
    (htasks : s'.outline.tasks = s.outline.tasks)
    (hcalls : ∀ id, (Assoc.get? s.calls id).isSome = true → (Assoc.get? s'.calls id).isSome = true)
    (hprofile : ∀ id, s'.outline.profile id = s.outline.profile id) : Tracked s s' where
  toBalanced := .of_eq htracker htasks hcalls
  watchers := by rw [htracker]
  profile := hprofile

theorem of_outline {s s' : Session σ τ α} (htracker : s'.tracker = s.tracker)
    (houtline : s'.outline = s.outline) : Tracked s s' := by
  have hcalls : s'.calls = s.calls := congrArg Outline.calls houtline
  exact .of_eq htracker (by rw [houtline]) (fun id h => hcalls ▸ h) (fun id => by rw [houtline])

theorem foldl {β : Type} {f : Session σ τ α → β → Session σ τ α}
    (hf : ∀ s x, Tracked s (f s x)) (s : Session σ τ α) (xs : List β) :
    Tracked s (xs.foldl f s) := by
  induction xs generalizing s with
  | nil => exact .refl s
  | cons x xs ih => exact (hf s x).trans (ih (f s x))

end Tracked

theorem tracked_report (s : Session σ τ α) (events : List (Event α)) :
    Tracked s (s.report events) :=
  .of_eq rfl rfl (fun _ h => h) (fun _ => rfl)

theorem tracked_wake (s : Session σ τ α) (isWoken : InFlight → Bool) :
    Tracked s (s.wake isWoken) :=
  .of_outline rfl (s.outline_wake isWoken)

theorem tracked_cancelToken (s : Session σ τ α) (token : Token) :
    Tracked s (s.cancelToken token) :=
  have htokens : Tracked s { s with tokens := s.tokens.cancel token } :=
    .of_eq rfl rfl (fun _ h => h) (fun _ => rfl)
  htokens.trans (tracked_wake _ _)

theorem tracker_publish (s : Session σ τ α) (changed : KeySet) :
    (s.publish changed).tracker = s.tracker := by
  rw [publish]
  split <;> rfl

/-- An execution that begins is counted with its task. -/
theorem tracked_track_spawn (s : Session σ τ α) {execution : Execution}
    (h : (Task.start execution).begins? = none) :
    Tracked s (s.track.spawn (.start execution)) where
  watchers := rfl
  accounts n hn := by
    rw [outline_spawn_start, Outline.guards_add _ h]
    exact hn.track
  profile id := by
    rw [outline_spawn_start]
    rfl
  known hs := by
    rw [outline_spawn_start]
    refine hs.add fun id hid => ?_
    rw [h] at hid
    cases hid

theorem tracked_setCall (s : Session σ τ α) (id : CallId) (call : Call α) :
    Tracked s (s.setCall id call) := by
  refine .of_eq rfl rfl (fun other h => ?_) (fun _ => rfl)
  by_cases hother : other = id
  · subst hother
    rw [setCall, Assoc.get?_insert_self]
    rfl
  · rwa [setCall, Assoc.get?_insert_of_ne _ _ hother]

theorem profile_of_get? {s : Session σ τ α} {id : WatcherId} {watcher : Watcher α}
    (h : Assoc.get? s.watchers id = some watcher) : s.outline.profile id =
      some (watcher.options.operation.name, watcher.state.started, watcher.state.canceled) := by
  change (Assoc.get? s.watchers id).map _ = _
  rw [h]
  rfl

/-- The marks of watchers once one of them has another state. -/
theorem profile_setWatcherState {s : Session σ τ α} {id : WatcherId} {watcher : Watcher α}
    (h : Assoc.get? s.watchers id = some watcher) (state : WatcherState) (other : WatcherId) :
    (s.setWatcherState id state).outline.profile other =
      if other = id then
        some (watcher.options.operation.name, state.started, state.canceled)
      else s.outline.profile other := by
  rw [Outline.profile]
  change (Assoc.get? (s.setWatcherState id state).watchers other).map _ = _
  split
  · next hother =>
    subst hother
    rw [get?_setWatcherState_self h]
    rfl
  · next hother =>
    rw [get?_setWatcherState_of_ne s hother]
    rfl

theorem balanced_setWatcherState (s : Session σ τ α) (id : WatcherId) (state : WatcherState) :
    Balanced s (s.setWatcherState id state) := by
  rw [setWatcherState]
  split
  · exact .refl s
  · exact .of_eq rfl rfl fun _ h => h

theorem tracker_setWatcherState (s : Session σ τ α) (id : WatcherId) (state : WatcherState) :
    (s.setWatcherState id state).tracker = s.tracker := by
  rw [setWatcherState]
  split <;> rfl

theorem tracked_setWatcherState {s : Session σ τ α} {id : WatcherId} {watcher : Watcher α}
    (h : Assoc.get? s.watchers id = some watcher) {state : WatcherState}
    (hstarted : state.started = watcher.state.started)
    (hcanceled : state.canceled = watcher.state.canceled) :
    Tracked s (s.setWatcherState id state) := by
  refine ⟨s.balanced_setWatcherState id state, by rw [tracker_setWatcherState], fun other => ?_⟩
  rw [profile_setWatcherState h, hstarted, hcanceled]
  split
  · next hother =>
    subst hother
    exact (profile_of_get? h).symm
  · rfl

theorem tracked_fetchBegun {s : Session σ τ α} {id : WatcherId} {watcher : Watcher α}
    (h : Assoc.get? s.watchers id = some watcher) (control : CacheControl) :
    Tracked s (s.fetchBegun id watcher control) := by
  let issued : Session σ τ α := { s with tokens := s.tokens.fresh.2 }
  have hissued : Tracked s issued := .of_eq rfl rfl (fun _ h => h) (fun _ => rfl)
  let state : WatcherState := { watcher.state with
    generation := watcher.state.generation + 1, active := some s.tokens.fresh.1 }
  have hset : Tracked issued (issued.setWatcherState id state) :=
    tracked_setWatcherState (s := issued) h rfl rfl
  refine hissued.trans (hset.trans ?_)
  rw [fetchBegun]
  cases watcher.state.active with
  | none => exact tracked_track_spawn _ rfl
  | some superseded => exact (tracked_cancelToken _ superseded).trans (tracked_track_spawn _ rfl)

theorem tracked_fetch (s : Session σ τ α) (id : WatcherId) (control : CacheControl) :
    Tracked s (s.fetch id control) := by
  cases h : Assoc.get? s.watchers id with
  | none =>
    rw [fetch, h]
    exact .refl s
  | some watcher =>
    rw [fetch_eq h]
    split
    · exact tracked_fetchBegun h control
    · exact .refl s

theorem tracked_refetch (s : Session σ τ α) (id : WatcherId) : Tracked s (s.refetch id) := by
  rw [refetch]
  split
  · exact .refl s
  · exact s.tracked_fetch id _

/-- A call that is started is counted. -/
theorem startCall_cases {s s' : Session σ τ α} {id : CallId} (h : s.startCall id = .ok s') :
    (Assoc.get? s.calls id = none ∧ s' = s) ∨ ∃ call, s' = (s.setCall id call).track := by
  cases hcall : Assoc.get? s.calls id with
  | none =>
    rw [startCall, hcall] at h
    cases h
    exact .inl ⟨rfl, rfl⟩
  | some call =>
    cases hexecuted : call.executed with
    | true =>
      rw [startCall_of_executed hcall hexecuted] at h
      cases h
    | false =>
      rw [startCall_of_not_executed hcall hexecuted] at h
      cases h
      exact .inr ⟨_, rfl⟩

theorem tracked_execute (s : Session σ τ α) (id : CallId) : Tracked s (s.execute id) := by
  cases hcall : Assoc.get? s.calls id with
  | none =>
    rw [execute, hcall]
    exact .refl s
  | some call =>
    have houtline := outline_execute hcall
    rw [execute, hcall] at houtline ⊢
    dsimp only at houtline ⊢
    refine ⟨⟨fun n hn => ?_, fun hs => ?_⟩, rfl, fun other => ?_⟩
    · rw [houtline, Outline.guards_add_of_begins? _ (show Task.begins? _ = some id from rfl)]
      exact hn
    · rw [houtline]
      refine hs.add fun other hother => ?_
      cases hother
      exact Option.isSome_iff_exists.mpr ⟨call, hcall⟩
    · rw [houtline]
      rfl

theorem tracked_enqueue {s s' : Session σ τ α} {id : CallId} (h : s.enqueue id = .ok s') :
    Tracked s s' := by
  cases hcall : Assoc.get? s.calls id with
  | none =>
    rw [enqueue, hcall] at h
    cases h
    exact .refl s
  | some call =>
    cases hexecuted : call.executed with
    | true =>
      rw [enqueue_of_executed hcall hexecuted] at h
      cases h
    | false =>
      rw [enqueue_of_not_executed hcall hexecuted] at h
      cases h
      exact (s.tracked_setCall id _).trans (tracked_track_spawn _ rfl)

theorem tracked_cancelCall (s : Session σ τ α) (id : CallId) : Tracked s (s.cancelCall id) := by
  rw [cancelCall]
  split
  · exact .refl s
  · next call _ =>
    have htokens : Tracked s { s with tokens := call.cancel s.tokens } :=
      .of_eq rfl rfl (fun _ h => h) (fun _ => rfl)
    exact htokens.trans (tracked_wake _ _)

theorem tracked_startRefetches (s : Session σ τ α) (id : CallId) (call : Call α)
    (options : CallOptions) : Tracked s (s.startRefetches id call options) := by
  let issued : Session σ τ α := { s with tokens := (s.tokens.child call.token).2 }
  have hissued : Tracked s issued := .of_eq rfl rfl (fun _ h => h) (fun _ => rfl)
  let fetched := options.refetchOperations.foldl (refetchOperation (s.tokens.child call.token).1)
    issued
  have hfetched : Tracked issued fetched :=
    .foldl (fun s operation => s.tracked_track_spawn rfl) issued _
  have hwatchers : Tracked fetched
      ((fetched.tracker.activeWatchers options.refetchNames).foldl refetch fetched) :=
    .foldl tracked_refetch fetched _
  rw [startRefetches]
  exact hissued.trans (hfetched.trans (hwatchers.trans (tracked_setCall _ _ _)))

theorem tracked_completeCall (s : Session σ τ α) (id : CallId) (options : CallOptions)
    (ending : Ending Json) : Tracked s (s.completeCall id options ending).2 := by
  rw [completeCall]
  split
  · exact .refl s
  · next call _ =>
    refine (s.tracked_setCall id { call with completed := true }).trans ?_
    dsimp only
    split
    · exact tracked_startRefetches _ _ _ _
    · exact .refl _

/-- The end of an execution is dealt with, its guard is given back, and the outside is told. -/
theorem exists_tracked_finish (s : Session σ τ α) (execution : Execution) (ending : Ending Json) :
    ∃ dealt, Tracked s dealt ∧ Tracked dealt.release (s.finish execution ending) := by
  obtain ⟨purpose, options, token⟩ := execution
  cases purpose with
  | execute id =>
    change ∃ dealt, Tracked s dealt ∧ Tracked dealt.release (s.finishExecute id options ending)
    refine ⟨_, s.tracked_completeCall id options ending, ?_⟩
    rw [finishExecute]
    split
    · next heq =>
      rw [heq]
      exact .refl _
    · next heq =>
      rw [heq]
      exact tracked_report _ _
  | enqueue id =>
    change ∃ dealt, Tracked s dealt ∧ Tracked dealt.release (s.finishEnqueue id options ending)
    refine ⟨_, s.tracked_completeCall id options ending, ?_⟩
    rw [finishEnqueue]
    split
    · next heq =>
      rw [heq]
      exact .refl _
    · next heq =>
      rw [heq]
      exact tracked_report _ _
  | refetch => exact ⟨s, .refl s, .refl _⟩
  | watch id generation =>
    change ∃ dealt, Tracked s dealt ∧ Tracked dealt.release (s.finishFetch id generation ending)
    cases hwatcher : Assoc.get? s.watchers id with
    | none =>
      rw [finishFetch, hwatcher]
      exact ⟨s, .refl s, .refl _⟩
    | some watcher =>
      obtain ⟨-, _, hstate⟩ := watcher.state.accept_eq_received id s.store generation ending
      let accepted := watcher.state.accept id s.store generation ending
      let stored : Session σ τ α := { s with store := accepted.store }
      have hstored : Tracked s stored := .of_eq rfl rfl (fun _ h => h) (fun _ => rfl)
      have hmarks : accepted.state.started = watcher.state.started ∧
          accepted.state.canceled = watcher.state.canceled := by
        change (watcher.state.accept id s.store generation ending).state.started = _ ∧
          (watcher.state.accept id s.store generation ending).state.canceled = _
        rw [hstate]
        rcases watcher.state.received_cases generation ending with
          ⟨hsame, -⟩ | ⟨-, -, _, hreceived, -⟩
        · rw [hsame]
          exact ⟨rfl, rfl⟩
        · rw [hreceived]
          exact ⟨rfl, rfl⟩
      have hset : Tracked stored (stored.setWatcherState id accepted.state) :=
        tracked_setWatcherState (s := stored) hwatcher hmarks.1 hmarks.2
      rw [finishFetch, hwatcher]
      dsimp only
      split
      · exact ⟨_, hstored.trans (hset.trans (tracked_report _ _)), .refl _⟩
      · exact ⟨_, hstored.trans hset, .refl _⟩

/-- Every section keeps the accounts. -/
theorem balanced_perform (s : Session σ τ α) (sec : Section) : Balanced s (s.perform sec).1 := by
  have hperforms := s.performs_perform sec
  generalize s.perform sec = performed at hperforms ⊢
  cases hperforms with
  | rests => exact .refl s
  | starts => exact s.balanced_setWatcherState _ _
  | registers => exact ⟨fun n hn => hn.register _ _, fun h => h⟩
  | fetches => exact (s.tracked_fetch _ _).toBalanced
  | refuses => exact (s.tracked_report _).toBalanced
  | refetches => exact (s.tracked_refetch _).toBalanced
  | cancels => exact s.balanced_setWatcherState _ _
  | unsubscribes => exact .of_eq rfl rfl fun _ h => h
  | unregisters => exact ⟨fun n hn => hn.unregister _ _, fun h => h⟩
  | halts => exact ((s.tracked_cancelToken _).trans (tracked_report _ _)).toBalanced

section Pipeline

variable [Storage σ]

theorem tracked_writeAndPublish (s : Session σ τ α) (operation : Operation) (data : Json.Object) :
    Tracked s (s.writeAndPublish operation data).2 :=
  .of_outline (tracker_publish _ _) (s.outline_writeAndPublish operation data)

theorem tracker_receive (s : Session σ τ α) (token : Token) (request : Pipeline.Request)
    (passed : List Pipeline.Interceptor) (outcome : Pipeline.Outcome) :
    (s.receive token request passed outcome).2.tracker = s.tracker := by
  rw [receive]
  exact tracker_publish _ _

theorem tracker_await (s : Session σ τ α) (inFlight : InFlight) :
    (s.await inFlight).2.tracker = s.tracker := by
  rw [await]
  split
  · exact s.tracker_receive _ _ _ _
  · rfl

theorem tracker_send (client : Client τ) (s : Session σ τ α) (execution : Execution)
    (request : Pipeline.Request) (passed : List Pipeline.Interceptor) :
    (send client s execution request passed).2.tracker = s.tracker := by
  rw [send]
  split
  · exact s.tracker_receive _ _ _ _
  · exact tracker_await _ _

theorem tracked_dispatch (client : Client τ) (s : Session σ τ α) (execution : Execution) :
    Tracked s (s.dispatch client execution).2 := by
  refine .of_outline ?_ (s.outline_dispatch client execution)
  rw [dispatch]
  split
  · rfl
  · rw [descend]
    split
    · rfl
    · split
      · rfl
      · exact tracker_send client _ _ _ _

theorem tracked_resume (s : Session σ τ α) (inFlight : InFlight) :
    Tracked s (s.resume inFlight).2 := by
  refine .of_outline ?_ (s.outline_resume inFlight)
  rw [resume]
  split
  · rfl
  · exact s.tracker_await inFlight

/-- A poll that does not start a call keeps the accounts. -/
theorem tracked_poll (client : Client τ) (s : Session σ τ α) {task : Task}
    (h : task.begins? = none) : Tracked s (s.poll client task).2 := by
  cases task with
  | notify changed =>
    exact .foldl (fun s (notice : Store.Notice WatcherId) => s.tracked_refetch _) s _
  | resume inFlight => exact s.tracked_resume inFlight
  | start execution =>
    obtain ⟨purpose, options, token⟩ := execution
    cases purpose with
    | execute id => cases h
    | _ => exact s.tracked_dispatch client _

end Pipeline

end Session

namespace Interleaved

variable {σ τ α : Type}

/-- The executions that are counted, those that have come through the pipeline among them. -/
def holders (s : Interleaved σ τ α) : Nat := s.arrived.length + s.session.outline.guards

structure Accounted (s : Interleaved σ τ α) : Prop where
  accounts : s.session.tracker.Accounts s.holders
  known : s.session.outline.Known

/-- A step of the tasks that keeps the accounts, and neither registers, starts nor cancels a watcher. -/
structure Tracked (s s' : Interleaved σ τ α) : Prop where
  watchers : s'.session.tracker.watchers = s.session.tracker.watchers
  accounted : s.Accounted → s'.Accounted
  profile : ∀ id, s'.session.outline.profile id = s.session.outline.profile id

theorem Tracked.refl (s : Interleaved σ τ α) : Tracked s s := ⟨rfl, fun h => h, fun _ => rfl⟩

theorem tracked_of_session {s : Interleaved σ τ α} {session : Session σ τ α}
    (h : s.session.Tracked session) : Tracked s { s with session := session } where
  watchers := h.watchers
  accounted hs := ⟨h.accounts _ hs.accounts, h.known hs.known⟩
  profile := h.profile

/-- An execution that was polled stays counted, whether it has come through or waits. -/
theorem tracked_settle {s : Interleaved σ τ α} {polled : Session σ τ α}
    (hwatchers : polled.tracker.watchers = s.session.tracker.watchers)
    (hprofile : ∀ id, polled.outline.profile id = s.session.outline.profile id)
    (haccounts : s.Accounted →
      polled.tracker.Accounts (s.arrived.length + 1 + polled.outline.guards) ∧ polled.outline.Known)
    (execution : Execution) (progress : Progress) :
    Tracked s (settle s.arrived (some (execution, progress), polled)) := by
  cases progress with
  | ended ending =>
    refine ⟨hwatchers, fun hs => ⟨?_, (haccounts hs).2⟩, hprofile⟩
    change polled.tracker.Accounts
      ((s.arrived ++ [(execution, ending)]).length + polled.outline.guards)
    rw [List.length_append, List.length_singleton]
    exact (haccounts hs).1
  | waits inFlight =>
    have houtline := polled.outline_wait inFlight
    refine ⟨hwatchers, fun hs => ⟨?_, ?_⟩, fun id => ?_⟩
    · change polled.tracker.Accounts
        (s.arrived.length + { polled with waiting := polled.waiting ++ [inFlight] }.outline.guards)
      rw [houtline, Outline.guards_add _ rfl, Nat.add_comm _ 1, ← Nat.add_assoc]
      exact (haccounts hs).1
    · change { polled with waiting := polled.waiting ++ [inFlight] }.outline.Known
      rw [houtline]
      refine (haccounts hs).2.add fun id hid => ?_
      cases hid
    · exact hprofile id

variable [Storage σ]

/-- A task that is run stays counted, and an awaited call is counted from now on. -/
theorem tracked_advance (client : Client τ) {s : Interleaved σ τ α} {index : Nat}
    (hopens : s.opens? (.advance index) = none) : Tracked s (s.step client (.advance index)) := by
  cases hready : s.session.ready[index]? with
  | none =>
    rw [step, hready]
    exact .refl s
  | some task =>
    rw [advance_eq client hready]
    cases hexecution : task.execution? with
    | none =>
      cases task with
      | notify changed =>
        rw [opens?, hready] at hopens
        cases hopens
      | _ => cases hexecution
    | some execution =>
      have htaking : s.session.outline = (s.taking index).outline.add task :=
        Session.outline_taking hready hexecution
      have hknown : s.session.outline.Known → (s.taking index).outline.Known := by
        rw [htaking]
        exact Outline.Known.of_add
      cases hbegins : task.begins? with
      | none =>
        obtain ⟨progress, after, hpoll, -, -⟩ :=
          (s.taking index).outline_poll client hexecution hbegins
        have htracked := (s.taking index).tracked_poll client hbegins
        rw [hpoll] at htracked ⊢
        refine tracked_settle htracked.watchers htracked.profile (fun hs => ⟨?_, ?_⟩) _ _
        · refine htracked.accounts (s.arrived.length + 1) ?_
          have haccounts := hs.accounts
          rwa [holders, htaking, Outline.guards_add _ hbegins, Nat.add_comm _ 1,
            ← Nat.add_assoc] at haccounts
        · exact htracked.known (hknown hs.known)
      | some id =>
        obtain ⟨options, token, rfl⟩ := Task.begins?_eq_some hbegins
        rw [Session.poll, Session.pollStart]
        dsimp only
        cases hstart : (s.taking index).startCall id with
        | error misuse =>
          have htracked := (s.taking index).tracked_report [.misused id misuse]
          refine ⟨htracked.watchers, fun hs => ⟨?_, htracked.known (hknown hs.known)⟩,
            htracked.profile⟩
          refine htracked.accounts s.arrived.length ?_
          have haccounts := hs.accounts
          rwa [holders, htaking, Outline.guards_add_of_begins? _ hbegins] at haccounts
        | ok started =>
          have hdispatch := started.tracked_dispatch client ⟨.execute id, options, token⟩
          rcases Session.startCall_cases hstart with ⟨hnone, rfl⟩ | ⟨call, rfl⟩
          · refine tracked_settle hdispatch.watchers hdispatch.profile (fun hs => ?_) _ _
            have hknown := hs.known
            rw [htaking] at hknown
            have hcall := hknown.of_add_self hbegins
            change (Assoc.get? (s.taking index).calls id).isSome = true at hcall
            rw [hnone] at hcall
            cases hcall
          · have hset := (s.taking index).tracked_setCall id call
            refine tracked_settle (hdispatch.watchers.trans hset.watchers)
              (fun other => (hdispatch.profile other).trans (hset.profile other))
              (fun hs => ⟨?_, hdispatch.known (hset.known (hknown hs.known))⟩) _ _
            refine hdispatch.accounts (s.arrived.length + 1) ?_
            have haccounts := hs.accounts
            rw [holders, htaking, Outline.guards_add_of_begins? _ hbegins] at haccounts
            have hcounted := (hset.accounts _ haccounts).track
            rwa [Nat.add_right_comm] at hcounted

theorem tracked_handOver (client : Client τ) (s : Interleaved σ τ α) (index : Nat) :
    Tracked s (s.step client (.handOver index)) := by
  cases harrived : s.arrived[index]? with
  | none =>
    rw [step, harrived]
    exact .refl s
  | some arrival =>
    obtain ⟨execution, ending⟩ := arrival
    obtain ⟨dealt, hdealt, hfinish⟩ := s.session.exists_tracked_finish execution ending
    have hlength : s.arrived.length = (s.arrived.eraseIdx index).length + 1 := by
      obtain ⟨hindex, -⟩ := List.getElem?_eq_some_iff.mp harrived
      rw [List.length_eraseIdx_of_lt hindex]
      omega
    rw [handOver_eq client harrived]
    refine ⟨?_, fun hs => ⟨?_, hfinish.known (hdealt.known hs.known)⟩, fun id => ?_⟩
    · exact hfinish.watchers.trans (dealt.tracker.watchers_release.trans hdealt.watchers)
    · refine hfinish.accounts (s.arrived.eraseIdx index).length ?_
      have haccounts := hdealt.accounts s.arrived.length hs.accounts
      rw [hlength, Nat.add_right_comm] at haccounts
      exact haccounts.release
    · exact (hfinish.profile id).trans (hdealt.profile id)

/-- A move that is no operation on watchers keeps the accounts. -/
theorem tracked_step (client : Client τ) {s : Interleaved σ τ α} {move : Move}
    (hopens : s.opens? move = none) : Tracked s (s.step client move) := by
  cases move with
  | advance index => exact tracked_advance client hopens
  | handOver index => exact s.tracked_handOver client index
  | write operation data =>
    exact tracked_of_session (s.session.tracked_writeAndPublish operation data)
  | openGate gate =>
    have hopened : s.session.Tracked
        { s.session with openGates := gate :: s.session.openGates } :=
      .of_eq rfl rfl (fun _ h => h) (fun _ => rfl)
    exact tracked_of_session (hopened.trans (Session.tracked_wake _ _))
  | execute call => exact tracked_of_session (s.session.tracked_execute call)
  | enqueue call =>
    rw [step]
    cases henqueue : s.session.enqueue call with
    | error misuse => exact .refl s
    | ok session => exact tracked_of_session (Session.tracked_enqueue henqueue)
  | cancelCall call => exact tracked_of_session (s.session.tracked_cancelCall call)
  | watch watcher => cases hopens
  | refetch watcher => cases hopens
  | cancelWatcher watcher => cases hopens
  | rest => exact .refl s

omit [Storage σ] in
/-- A notification that is taken to be carried out was not counted. -/
theorem tracked_of_withdraws {s s' : Interleaved σ τ α} (h : s.Withdraws s') : Tracked s s' := by
  rcases h with rfl | ⟨index, changed, hready, rfl⟩
  · exact .refl _
  · exact tracked_of_session (.of_outline rfl (Session.outline_taking_notify hready).symm)

end Interleaved

namespace Concurrent

variable {σ τ α : Type} [Storage σ]

theorem accounted_acts {client : Client τ} {s s' : Concurrent σ τ α} (hs : s.tasks.Accounted)
    (h : s.Acts client s') : s'.tasks.Accounted := by
  cases h with
  | rests => exact hs
  | moves hopens => exact (Interleaved.tracked_step client hopens).accounted hs
  | begins hwithdraws => exact (Interleaved.tracked_of_withdraws hwithdraws).accounted hs
  | @proceeds before sec rest after =>
    have hbalanced := s.tasks.session.balanced_perform sec
    exact ⟨hbalanced.accounts _ hs.accounts, hbalanced.known hs.known⟩

/-- The count is that of the executions under way and of the registrations, at every moment. -/
theorem accounted_run (client : Client τ) {s : Concurrent σ τ α} (hs : s.tasks.Accounted)
    (acts : List Act) : (s.run client acts).tasks.Accounted :=
  run_induction (motive := fun now => now.tasks.Accounted) (fun h hacts => accounted_acts h hacts)
    hs acts

end Concurrent

end GraphClient
