import GraphClient.Session.Run

/-!
# What leaves the standing of watchers alone

The standing of a watcher is what decides whether the store wakes it: whether it is canceled, and
which subscription it has. Only two steps of a session change it, the end of a fetch that is accepted
and a cancellation. Every other step keeps the subscriptions and the standing of every watcher, which
is stated once as `SameStanding` and shown for each function on the way.
-/

namespace GraphClient

namespace Store

variable {σ β : Type}

/-- The same subscriptions, and the same number for the next. -/
structure SameSubscriptions (s s' : Store σ β) : Prop where
  subscriptions : s'.subscriptions = s.subscriptions
  nextSubscription : s'.nextSubscription = s.nextSubscription

namespace SameSubscriptions

theorem refl (s : Store σ β) : SameSubscriptions s s := ⟨rfl, rfl⟩

theorem trans {s s' s'' : Store σ β} (h : SameSubscriptions s s')
    (h' : SameSubscriptions s' s'') : SameSubscriptions s s'' :=
  ⟨h'.subscriptions.trans h.subscriptions, h'.nextSubscription.trans h.nextSubscription⟩

end SameSubscriptions

variable [Storage σ]

theorem sameSubscriptions_readDirected (s : Store σ β) (operation : Operation)
    (directives : Directives) :
    SameSubscriptions s (s.readDirected operation directives).2 := by
  rw [readDirected]
  split
  · rw [readAndEvict]
    split
    · exact .refl s
    · exact ⟨rfl, rfl⟩
  · exact .refl s

theorem sameSubscriptions_lookup (s : Store σ β) (operation : Operation)
    (directives : Directives) : SameSubscriptions s (s.lookup operation directives).2 := by
  have h := s.sameSubscriptions_readDirected operation directives
  rw [lookup]
  split
  · next heq => rwa [heq] at h
  · next heq => rwa [heq] at h

theorem sameSubscriptions_merge (s : Store σ β) (records : List Record) (directives : Directives) :
    SameSubscriptions s (s.merge records directives).2 := by
  rw [merge]
  split
  · exact .refl s
  · exact ⟨rfl, rfl⟩

theorem sameSubscriptions_writeAndPublish (s : Store σ β) (operation : Operation)
    (data : Json.Object) : SameSubscriptions s (s.writeAndPublish operation data).2.2 := by
  have h : SameSubscriptions s (s.write operation data).2 := by
    rw [write]
    split
    · exact .refl s
    · exact s.sameSubscriptions_merge _ _
  rw [writeAndPublish]
  split
  · next heq => rwa [heq] at h
  · next heq => rwa [heq] at h

end Store

namespace Pipeline.CacheStage

variable {σ β : Type} [Storage σ]

theorem sameSubscriptions_readReply (s : Store σ β) (request : Request) :
    s.SameSubscriptions (readReply s request).2 := by
  have h := s.sameSubscriptions_lookup request.operation request.directives
  rw [readReply]
  split
  · next heq => rwa [heq] at h
  · next heq => rwa [heq] at h

theorem sameSubscriptions_lookup (s : Store σ β) (request : Request) :
    s.SameSubscriptions (lookup s request).2 := by
  have h := sameSubscriptions_readReply s request
  rw [lookup]
  split
  · split
    · next heq => rwa [heq] at h
    · next heq =>
      rw [heq] at h
      split
      · exact h
      · exact h
  · exact .refl s

theorem sameSubscriptions_storeReply (s : Store σ β) (directives : Directives) (reply : Reply) :
    s.SameSubscriptions (storeReply s directives reply).2 := by
  rw [storeReply]
  split
  · exact .refl s
  · exact .refl s
  · next records _ _ =>
    have h := s.sameSubscriptions_merge records directives
    split
    · next heq => rwa [heq] at h
    · next heq => rwa [heq] at h

theorem sameSubscriptions_settle (s : Store σ β) (request : Request) (canceled : Bool)
    (outcome : Outcome) : s.SameSubscriptions (settle s request canceled outcome).2.2 := by
  have h := sameSubscriptions_readReply s request
  rw [settle.eq_def]
  split
  · next reply => exact sameSubscriptions_storeReply s request.directives reply
  · exact .refl s
  · split
    · split
      · exact .refl s
      · split
        · next heq => rwa [heq] at h
        · next heq => rwa [heq] at h
    · exact .refl s

end Pipeline.CacheStage

namespace Session

variable {σ τ α : Type}

/-- Whether a watcher is canceled, and which subscription it has. -/
def standing (s : Session σ τ α) (id : WatcherId) : Option (Bool × Option SubscriptionId) :=
  (Assoc.get? s.watchers id).map fun watcher => (watcher.state.canceled, watcher.state.subscription)

/-- The same subscriptions, and the same standing of every watcher. -/
structure SameStanding (s s' : Session σ τ α) : Prop where
  store : s.store.SameSubscriptions s'.store
  standing : ∀ id, s'.standing id = s.standing id

namespace SameStanding

theorem refl (s : Session σ τ α) : SameStanding s s := ⟨.refl s.store, fun _ => rfl⟩

theorem trans {s s' s'' : Session σ τ α} (h : SameStanding s s') (h' : SameStanding s' s'') :
    SameStanding s s'' :=
  ⟨h.store.trans h'.store, fun id => (h'.standing id).trans (h.standing id)⟩

/-- A step that touches only the records of the store. -/
theorem of_store {s s' : Session σ τ α} (hstore : s.store.SameSubscriptions s'.store)
    (hwatchers : s'.watchers = s.watchers) : SameStanding s s' := by
  refine ⟨hstore, fun id => ?_⟩
  simp only [Session.standing, hwatchers]

/-- A step that touches neither the store nor the watchers. -/
theorem of_eq {s s' : Session σ τ α} (hstore : s'.store = s.store)
    (hwatchers : s'.watchers = s.watchers) : SameStanding s s' :=
  .of_store (hstore ▸ .refl s.store) hwatchers

theorem foldl {β : Type} {f : Session σ τ α → β → Session σ τ α}
    (hf : ∀ s x, SameStanding s (f s x)) (s : Session σ τ α) (xs : List β) :
    SameStanding s (xs.foldl f s) := by
  induction xs generalizing s with
  | nil => exact .refl s
  | cons x xs ih => exact (hf s x).trans (ih (f s x))

end SameStanding

theorem sameStanding_publish (s : Session σ τ α) (changed : KeySet) :
    SameStanding s (s.publish changed) := by
  rw [publish]
  split
  · exact .refl s
  · exact .of_eq rfl rfl

theorem sameStanding_rise (s : Session σ τ α) (passed : List Pipeline.Interceptor)
    (outcome : Pipeline.Outcome) : SameStanding s (s.rise passed outcome).2 :=
  .of_eq rfl rfl

section Dispatch

variable [Storage σ]

theorem sameStanding_receive (s : Session σ τ α) (token : Token) (request : Pipeline.Request)
    (passed : List Pipeline.Interceptor) (outcome : Pipeline.Outcome) :
    SameStanding s (s.receive token request passed outcome).2 := by
  have hstore := Pipeline.CacheStage.sameSubscriptions_settle s.store request
    (s.tokens.isCanceled token)
    (Pipeline.ParseStage.settle s.store.resolver request.operation outcome)
  rw [receive]
  have hsettled : SameStanding s { s with store := _ } := .of_store hstore rfl
  exact (hsettled.trans (sameStanding_publish _ _)).trans (sameStanding_rise _ passed _)

theorem sameStanding_await (s : Session σ τ α) (inFlight : InFlight) :
    SameStanding s (s.await inFlight).2 := by
  rw [await]
  split
  · exact s.sameStanding_receive _ _ _ _
  · exact .refl s

theorem sameStanding_send (client : Client τ) (s : Session σ τ α) (execution : Execution)
    (request : Pipeline.Request) (passed : List Pipeline.Interceptor) :
    SameStanding s (send client s execution request passed).2 := by
  rw [send]
  split
  · exact s.sameStanding_receive _ _ _ _
  · next httpRequest _ =>
    have hsent : SameStanding s
        { s with
          transport := (client.transport.send httpRequest s.transport).2
          requests := s.requests ++ [httpRequest] } := .of_eq rfl rfl
    exact hsent.trans (sameStanding_await _ _)

theorem sameStanding_descend (client : Client τ) (s : Session σ τ α) (execution : Execution) :
    SameStanding s (s.descend client execution).2 := by
  let descent := Pipeline.descend [] client.interceptors execution.options.request
  let below := s.report (descent.crossings.map .crossed)
  have hreport : SameStanding s below := .of_eq rfl rfl
  rw [descend]
  refine hreport.trans ?_
  split
  · exact sameStanding_rise _ _ _
  · next request _ =>
    have hstore := Pipeline.CacheStage.sameSubscriptions_lookup below.store request
    split
    · next reply store heq =>
      rw [heq] at hstore
      have hlooked : SameStanding below { below with store := store } := .of_store hstore rfl
      exact hlooked.trans (sameStanding_rise _ _ _)
    · next store heq =>
      rw [heq] at hstore
      have hlooked : SameStanding below { below with store := store } := .of_store hstore rfl
      exact hlooked.trans (sameStanding_send client _ _ _ _)

theorem sameStanding_dispatch (client : Client τ) (s : Session σ τ α) (execution : Execution) :
    SameStanding s (s.dispatch client execution).2 := by
  rw [dispatch]
  split
  · exact .refl s
  · exact s.sameStanding_descend client execution

theorem sameStanding_resume (s : Session σ τ α) (inFlight : InFlight) :
    SameStanding s (s.resume inFlight).2 := by
  rw [resume]
  split
  · exact .refl s
  · exact s.sameStanding_await inFlight

end Dispatch

theorem store_setWatcherState (s : Session σ τ α) (id : WatcherId) (state : WatcherState) :
    (s.setWatcherState id state).store = s.store := by
  rw [setWatcherState]
  split <;> rfl

theorem get?_setWatcherState_of_ne (s : Session σ τ α) {id other : WatcherId} (h : other ≠ id)
    (state : WatcherState) :
    Assoc.get? (s.setWatcherState id state).watchers other = Assoc.get? s.watchers other := by
  rw [setWatcherState]
  split
  · rfl
  · exact Assoc.get?_insert_of_ne _ _ h

theorem get?_setWatcherState_self {s : Session σ τ α} {id : WatcherId} {watcher : Watcher α}
    (h : Assoc.get? s.watchers id = some watcher) (state : WatcherState) :
    Assoc.get? (s.setWatcherState id state).watchers id = some { watcher with state := state } := by
  rw [setWatcherState, h]
  exact Assoc.get?_insert_self _ _ _

theorem standing_setWatcherState_of_ne (s : Session σ τ α) {id other : WatcherId} (h : other ≠ id)
    (state : WatcherState) : (s.setWatcherState id state).standing other = s.standing other := by
  rw [standing, s.get?_setWatcherState_of_ne h, standing]

theorem standing_setWatcherState_self {s : Session σ τ α} {id : WatcherId} {watcher : Watcher α}
    (h : Assoc.get? s.watchers id = some watcher) (state : WatcherState) :
    (s.setWatcherState id state).standing id = some (state.canceled, state.subscription) := by
  rw [standing, get?_setWatcherState_self h, Option.map_some]

theorem sameStanding_setWatcherState {s : Session σ τ α} {id : WatcherId} {watcher : Watcher α}
    (h : Assoc.get? s.watchers id = some watcher) {state : WatcherState}
    (hcanceled : state.canceled = watcher.state.canceled)
    (hsubscription : state.subscription = watcher.state.subscription) :
    SameStanding s (s.setWatcherState id state) := by
  refine ⟨s.store_setWatcherState id state ▸ .refl s.store, fun other => ?_⟩
  by_cases hother : other = id
  · subst hother
    rw [standing_setWatcherState_self h, hcanceled, hsubscription, standing, h, Option.map_some]
  · exact s.standing_setWatcherState_of_ne hother state

/-- The session once a fetch of a watcher has begun. -/
def fetchBegun (s : Session σ τ α) (id : WatcherId) (watcher : Watcher α)
    (control : CacheControl) : Session σ τ α :=
  let token := s.tokens.fresh.1
  let generation := watcher.state.generation + 1
  let issued := { s with tokens := s.tokens.fresh.2 }.setWatcherState id
    { watcher.state with generation := generation, active := some token }
  let freed := match watcher.state.active with
    | none => issued
    | some superseded => issued.cancelToken superseded
  freed.track.spawn (.start ⟨.watch id generation, { watcher.options with control := control }, token⟩)

/-- A fetch begins at a watcher that is started and not canceled, and nowhere else. -/
theorem fetch_eq {s : Session σ τ α} {id : WatcherId} {watcher : Watcher α}
    (h : Assoc.get? s.watchers id = some watcher) (control : CacheControl) :
    s.fetch id control =
      if watcher.state.started && !watcher.state.canceled then s.fetchBegun id watcher control
      else s := by
  rw [fetch, h]
  dsimp only [Tokens.fresh]
  rw [WatcherState.beginFetch, fetchBegun]
  obtain ⟨options, decoder, ⟨started, canceled, refetchControl, generation, active, -, -⟩⟩ := watcher
  cases started with
  | false => rfl
  | true =>
    cases canceled with
    | true => rfl
    | false => cases active <;> rfl

theorem sameStanding_fetchBegun {s : Session σ τ α} {id : WatcherId} {watcher : Watcher α}
    (h : Assoc.get? s.watchers id = some watcher) (control : CacheControl) :
    SameStanding s (s.fetchBegun id watcher control) := by
  let issued : Session σ τ α := { s with tokens := s.tokens.fresh.2 }
  have hissued : SameStanding s issued := .of_eq rfl rfl
  let state : WatcherState := { watcher.state with
    generation := watcher.state.generation + 1, active := some s.tokens.fresh.1 }
  have hset : SameStanding issued (issued.setWatcherState id state) :=
    sameStanding_setWatcherState (s := issued) h rfl rfl
  refine hissued.trans (hset.trans ?_)
  rw [fetchBegun]
  cases watcher.state.active with
  | none => exact .of_eq rfl rfl
  | some superseded => exact .of_eq rfl rfl

theorem sameStanding_fetch (s : Session σ τ α) (id : WatcherId) (control : CacheControl) :
    SameStanding s (s.fetch id control) := by
  cases h : Assoc.get? s.watchers id with
  | none =>
    rw [fetch, h]
    exact .refl s
  | some watcher =>
    rw [fetch_eq h]
    split
    · exact sameStanding_fetchBegun h control
    · exact .refl s

theorem sameStanding_refetch (s : Session σ τ α) (id : WatcherId) :
    SameStanding s (s.refetch id) := by
  rw [refetch]
  split
  · exact .refl s
  · exact s.sameStanding_fetch id _

theorem sameStanding_notify (s : Session σ τ α) (changed : KeySet) :
    SameStanding s (s.notify changed) := by
  rw [notify]
  exact .foldl (fun s (notice : Store.Notice WatcherId) => s.sameStanding_refetch _) s _

theorem sameStanding_startRefetches (s : Session σ τ α) (id : CallId) (call : Call α)
    (options : CallOptions) : SameStanding s (s.startRefetches id call options) := by
  have htokens : SameStanding s { s with tokens := (s.tokens.child call.token).2 } := .of_eq rfl rfl
  have hoperation : ∀ (s : Session σ τ α) (token : Token) (operation : Operation),
      SameStanding s (refetchOperation token s operation) := fun _ _ _ => .of_eq rfl rfl
  have hcall : ∀ (s : Session σ τ α) (call : Call α), SameStanding s (s.setCall id call) :=
    fun _ _ => .of_eq rfl rfl
  let issued : Session σ τ α := { s with tokens := (s.tokens.child call.token).2 }
  let fetched := options.refetchOperations.foldl (refetchOperation (s.tokens.child call.token).1)
    issued
  have hfetched : SameStanding issued fetched := .foldl (fun s => hoperation s _) issued _
  have hwatchers : SameStanding fetched
      ((fetched.tracker.activeWatchers options.refetchNames).foldl refetch fetched) :=
    .foldl sameStanding_refetch fetched _
  rw [startRefetches]
  exact htokens.trans (hfetched.trans (hwatchers.trans (hcall _ _)))

theorem sameStanding_startCall {s s' : Session σ τ α} {id : CallId} (h : s.startCall id = .ok s') :
    SameStanding s s' := by
  rw [startCall] at h
  split at h
  · cases h
    exact .refl s
  · next call _ =>
    cases hstart : call.start with
    | error misuse =>
      rw [hstart] at h
      cases h
    | ok started =>
      rw [hstart] at h
      cases h
      exact .of_eq rfl rfl

theorem sameStanding_completeCall (s : Session σ τ α) (id : CallId) (options : CallOptions)
    (ending : Ending Json) : SameStanding s (s.completeCall id options ending).2 := by
  rw [completeCall]
  split
  · exact .refl s
  · next call _ =>
    have hcall : SameStanding s (s.setCall id { call with completed := true }) := .of_eq rfl rfl
    refine hcall.trans ?_
    dsimp only
    split
    · exact sameStanding_startRefetches _ _ _ _
    · exact .refl _

/-- The end of an execution that is not for a watcher. -/
theorem sameStanding_finish {s : Session σ τ α} {execution : Execution}
    (h : ∀ id generation, execution.purpose ≠ .watch id generation) (ending : Ending Json) :
    SameStanding s (s.finish execution ending) := by
  rw [finish]
  split
  · next id _ =>
    have hcall := s.sameStanding_completeCall id execution.options ending
    rw [finishExecute]
    split
    · next heq =>
      rw [heq] at hcall
      exact hcall.trans (.of_eq rfl rfl)
    · next heq =>
      rw [heq] at hcall
      exact hcall.trans (.of_eq rfl rfl)
  · next id _ =>
    have hcall := s.sameStanding_completeCall id execution.options ending
    rw [finishEnqueue]
    split
    · next heq =>
      rw [heq] at hcall
      exact hcall.trans (.of_eq rfl rfl)
    · next heq =>
      rw [heq] at hcall
      exact hcall.trans (.of_eq rfl rfl)
  · exact .of_eq rfl rfl
  · next id generation heq => exact absurd heq (h id generation)

/-- Nothing that a task does on its way through the pipeline changes the standing of a watcher. -/
theorem sameStanding_poll [Storage σ] (client : Client τ) (s : Session σ τ α) (task : Task) :
    SameStanding s (s.poll client task).2 := by
  cases task with
  | start execution =>
    change SameStanding s (s.pollStart client execution).2
    rw [pollStart]
    split
    · split
      · exact .of_eq rfl rfl
      · next heq => exact (sameStanding_startCall heq).trans (sameStanding_dispatch client _ _)
    · exact sameStanding_dispatch client s execution
  | resume inFlight => exact s.sameStanding_resume inFlight
  | notify changed => exact s.sameStanding_notify changed

theorem sameStanding_writeAndPublish [Storage σ] (s : Session σ τ α) (operation : Operation)
    (data : Json.Object) : SameStanding s (s.writeAndPublish operation data).2 := by
  have hwritten : SameStanding s
      { s with store := (s.store.writeAndPublish operation data).2.2 } :=
    .of_store (s.store.sameSubscriptions_writeAndPublish operation data) rfl
  exact hwritten.trans (sameStanding_publish _ _)

theorem sameStanding_execute (s : Session σ τ α) (id : CallId) : SameStanding s (s.execute id) := by
  rw [execute]
  split
  · exact .refl s
  · exact .of_eq rfl rfl

theorem sameStanding_enqueue {s s' : Session σ τ α} {id : CallId} (h : s.enqueue id = .ok s') :
    SameStanding s s' := by
  rw [enqueue] at h
  split at h
  · cases h
    exact .refl s
  · cases hstart : s.startCall id with
    | error misuse =>
      rw [hstart] at h
      cases h
    | ok started =>
      rw [hstart] at h
      cases h
      exact (sameStanding_startCall hstart).trans (.of_eq rfl rfl)

theorem sameStanding_cancelCall (s : Session σ τ α) (id : CallId) :
    SameStanding s (s.cancelCall id) := by
  rw [cancelCall]
  split
  · exact .refl s
  · exact .of_eq rfl rfl

/-- The session once a watcher is marked as started and registered. -/
def watcherRegistered (s : Session σ τ α) (id : WatcherId) (watcher : Watcher α) : Session σ τ α :=
  let marked := s.setWatcherState id { watcher.state with started := true }
  { marked with tracker := marked.tracker.register watcher.options.operation.name id }

/-- A watcher is started once. It begins to fetch then, or is told that it was canceled before. -/
theorem watch_eq {s : Session σ τ α} {id : WatcherId} {watcher : Watcher α}
    (h : Assoc.get? s.watchers id = some watcher) :
    s.watch id =
      if watcher.state.started then .error .alreadyExecuted
      else if watcher.state.canceled then
        .ok ((s.setWatcherState id { watcher.state with started := true }).report
          [.watched id (.error .canceled)])
      else .ok ((s.watcherRegistered id watcher).fetch id watcher.options.control) := by
  rw [watch, h]
  obtain ⟨options, decoder, ⟨started, canceled, -, -, -, -, -⟩⟩ := watcher
  cases started with
  | true => rfl
  | false => cases canceled <;> rfl

theorem sameStanding_watch {s s' : Session σ τ α} {id : WatcherId} (h : s.watch id = .ok s') :
    SameStanding s s' := by
  cases hget : Assoc.get? s.watchers id with
  | none =>
    rw [watch, hget] at h
    cases h
    exact .refl s
  | some watcher =>
    have hset : SameStanding s (s.setWatcherState id { watcher.state with started := true }) :=
      sameStanding_setWatcherState hget rfl rfl
    rw [watch_eq hget] at h
    split at h
    · cases h
    · refine hset.trans ?_
      split at h
      · cases h
        exact .of_eq rfl rfl
      · cases h
        refine .trans ?_ (sameStanding_fetch _ id _)
        exact .of_eq rfl rfl

end Session

end GraphClient
