import GraphClient.Proofs.Pipeline.CachePolicy
import GraphClient.Proofs.Session.Moving
import GraphClient.Proofs.Store.RoundTrip

/-!
# Sessions that only ask the cache

When all watchers of a session fetch from the cache alone and evict nothing, every fetch ends with the
poll that begins it: with what the store reads at that moment, or as canceled
(`dispatch_of_isOffline`). Interceptors may look on, as long as they change nothing.

The moves of such a session are of two kinds. A write changes the records and wakes watchers. Every
other move spares the records (`Spares`): it may begin fetches, but it forgets no task besides the one
that it runs. So the session goes on as it is (`offline_move`).
-/

namespace GraphClient

namespace Pipeline

/-- An interceptor that lets everything pass as it is, and at most records it. -/
structure Interceptor.IsTransparent (i : Interceptor) : Prop where
  enter : ∀ request, i.enter request = .forward request
  leave : ∀ outcome, i.leave outcome = outcome

theorem isTransparent_recording (name : String) : (Interceptor.recording name).IsTransparent :=
  ⟨fun _ => rfl, fun _ => rfl⟩

theorem exists_descend_eq {is : List Interceptor} (h : ∀ i ∈ is, i.IsTransparent)
    (passed : List Interceptor) (request : Request) :
    ∃ crossings, descend passed is request =
      ⟨.forward request, is.reverse ++ passed, crossings⟩ := by
  induction is generalizing passed with
  | nil => exact ⟨[], rfl⟩
  | cons i is ih =>
    obtain ⟨hi, his⟩ := List.forall_mem_cons.mp h
    obtain ⟨crossings, hbelow⟩ := ih his (i :: passed)
    refine ⟨i.crossDown request ++ crossings, ?_⟩
    rw [descend, hi.enter]
    simp only [hbelow, List.reverse_cons, List.append_assoc, List.singleton_append]

theorem fst_ascend_eq {is : List Interceptor} (h : ∀ i ∈ is, i.IsTransparent) (outcome : Outcome) :
    (ascend is outcome).1 = outcome := by
  induction is with
  | nil => rfl
  | cons i is ih =>
    obtain ⟨hi, his⟩ := List.forall_mem_cons.mp h
    rw [ascend, hi.leave]
    exact ih his

end Pipeline

/-- A query that is only asked of the cache, and leaves there what it reads. -/
structure CallOptions.IsOffline (options : CallOptions) : Prop where
  query : options.operation.isQuery = true
  control : options.control = .cacheOnly
  keeps : options.directives.evictAfterRead = false

/-- What is only asked of the cache is answered by a read, which may be a miss. -/
theorem Pipeline.CacheStage.exists_lookup_eq {σ β : Type} [Storage σ] (s : Store σ β)
    {options : CallOptions} (h : options.IsOffline) :
    ∃ reply, lookup s options.request = (some reply, s) ∧
      reply.response = some (s.read options.operation .none).1 := by
  have halone : AnswersAlone s options.request := ⟨h.query, .inl h.control⟩
  rw [lookup_of_answersAlone halone]
  cases hread : s.readOperation options.operation with
  | ok result =>
    have hkept : s.afterRead options.directives result = s := by
      rw [Store.afterRead, h.keeps]
      rfl
    refine ⟨cachedReply result, ?_, congrArg some (Store.fst_read_eq hread .none).symm⟩
    rw [show s.readOperation options.request.operation = .ok result from hread]
    exact congrArg (Prod.mk _) hkept
  | error e =>
    refine ⟨missReply, ?_, congrArg some (Store.fst_read_of_error hread .none).symm⟩
    rw [show s.readOperation options.request.operation = .error e from hread]

namespace Session

variable {σ τ α : Type}

section Dispatch

variable [Storage σ]

omit [Storage σ] in
theorem report_nil (s : Session σ τ α) : s.report [] = s := by
  rw [report, List.append_nil]

/-- An execution that only asks the cache ends with its first poll: it reads the store as it is. -/
theorem dispatch_of_isOffline {client : Client τ}
    (hclient : ∀ i ∈ client.interceptors, i.IsTransparent) (s : Session σ τ α)
    {execution : Execution} (h : execution.options.IsOffline) :
    ∃ crossings : List Pipeline.Crossing, s.dispatch client execution =
      (.ended (if s.tokens.isCanceled execution.token then .error .canceled
        else .ok (s.store.read execution.options.operation .none).1),
        s.report (crossings.map .crossed)) := by
  rw [dispatch]
  split
  · exact ⟨[], by rw [List.map_nil, report_nil]⟩
  · obtain ⟨down, hdescend⟩ :=
      Pipeline.exists_descend_eq hclient [] execution.options.request
    obtain ⟨reply, hlookup, hresponse⟩ :=
      Pipeline.CacheStage.exists_lookup_eq s.store h
    have hpassed : ∀ i ∈ client.interceptors.reverse ++ [], i.IsTransparent := by
      simpa using hclient
    have htop := Pipeline.fst_ascend_eq hpassed (.ok reply)
    refine ⟨down ++ (Pipeline.ascend (client.interceptors.reverse ++ []) (.ok reply)).2, ?_⟩
    rw [descend, hdescend]
    dsimp only
    rw [show (s.report (down.map .crossed)).store = s.store from rfl, hlookup]
    dsimp only
    rw [rise]
    dsimp only
    rw [htop]
    simp only [Except.map, hresponse, Option.getD_some, report, List.map_append, List.append_assoc]

end Dispatch

/-- How a watcher fetches: its options, and the cache control of every fetch but the first. -/
def plan (s : Session σ τ α) (id : WatcherId) : Option (CallOptions × CacheControl) :=
  (Assoc.get? s.watchers id).map fun watcher => (watcher.options, watcher.state.refetchControl)

/-- A task with which a watcher fetches as it is planned. -/
def IsPlanned (s : Session σ τ α) (task : Task) : Prop :=
  ∃ id options later control generation token, s.plan id = some (options, later) ∧
    (control = options.control ∨ control = later) ∧
    task = .start ⟨.watch id generation, { options with control := control }, token⟩

theorem IsPlanned.of_plan {s s' : Session σ τ α} {task : Task} (h : s'.IsPlanned task)
    (hplan : ∀ id, s'.plan id = s.plan id) : s.IsPlanned task := by
  obtain ⟨id, options, later, control, generation, token, hfound, hrest⟩ := h
  exact ⟨id, options, later, control, generation, token, (hplan id).symm.trans hfound, hrest⟩

/-- A step that spares the records: it may begin fetches, and wake executions that wait. -/
structure Spares (s s' : Session σ τ α) : Prop where
  contents : s'.store.contents = s.store.contents
  resolver : s'.store.resolver = s.store.resolver
  plan : ∀ id, s'.plan id = s.plan id
  ready : s.ready ⊆ s'.ready
  begun : ∀ task ∈ s'.ready, task ∈ s.ready ∨ s.IsPlanned task ∨
    ∃ inFlight ∈ s.waiting, task = .resume inFlight
  waiting : s'.waiting ⊆ s.waiting

theorem plan_eq {s : Session σ τ α} {id : WatcherId} {watcher : Watcher α}
    (h : Assoc.get? s.watchers id = some watcher) :
    s.plan id = some (watcher.options, watcher.state.refetchControl) := by
  rw [plan, h, Option.map_some]

namespace Spares

/-- A step that touches neither the records, nor the watchers, nor the tasks. -/
theorem of_eq {s s' : Session σ τ α} (hcontents : s'.store.contents = s.store.contents)
    (hresolver : s'.store.resolver = s.store.resolver) (hwatchers : s'.watchers = s.watchers)
    (hready : s'.ready = s.ready) (hwaiting : s'.waiting = s.waiting) : Spares s s' where
  contents := hcontents
  resolver := hresolver
  plan id := by rw [Session.plan, hwatchers, Session.plan]
  ready := hready ▸ List.Subset.refl s.ready
  begun task htask := .inl (hready ▸ htask)
  waiting := hwaiting ▸ List.Subset.refl s.waiting

theorem refl (s : Session σ τ α) : Spares s s := of_eq rfl rfl rfl rfl rfl

theorem trans {s s' s'' : Session σ τ α} (h : Spares s s') (h' : Spares s' s'') : Spares s s'' where
  contents := h'.contents.trans h.contents
  resolver := h'.resolver.trans h.resolver
  plan id := (h'.plan id).trans (h.plan id)
  ready := List.Subset.trans h.ready h'.ready
  begun task htask := by
    rcases h'.begun task htask with hready | hplanned | ⟨inFlight, hwaits, rfl⟩
    · exact h.begun task hready
    · exact .inr (.inl (hplanned.of_plan h.plan))
    · exact .inr (.inr ⟨inFlight, h.waiting hwaits, rfl⟩)
  waiting := List.Subset.trans h'.waiting h.waiting

theorem foldl {β : Type} {f : Session σ τ α → β → Session σ τ α}
    (hf : ∀ s x, Spares s (f s x)) (s : Session σ τ α) (xs : List β) :
    Spares s (xs.foldl f s) := by
  induction xs generalizing s with
  | nil => exact .refl s
  | cons x xs ih => exact (hf s x).trans (ih (f s x))

end Spares

theorem spares_report (s : Session σ τ α) (events : List (Event α)) : Spares s (s.report events) :=
  .of_eq rfl rfl rfl rfl rfl

theorem spares_wake (s : Session σ τ α) (isWoken : InFlight → Bool) : Spares s (s.wake isWoken) where
  contents := rfl
  resolver := rfl
  plan _ := rfl
  ready := List.subset_append_left _ _
  begun task htask := by
    rcases List.mem_append.mp htask with hready | hwoken
    · exact .inl hready
    · obtain ⟨inFlight, hmem, rfl⟩ := List.mem_map.mp hwoken
      exact .inr (.inr ⟨inFlight, List.mem_of_mem_filter hmem, rfl⟩)
  waiting _ hmem := List.mem_of_mem_filter hmem

theorem spares_cancelToken (s : Session σ τ α) (token : Token) :
    Spares s (s.cancelToken token) := by
  have hcanceled : Spares s { s with tokens := s.tokens.cancel token } :=
    .of_eq rfl rfl rfl rfl rfl
  exact hcanceled.trans (spares_wake _ _)

theorem spares_spawn (s : Session σ τ α) {task : Task} (h : s.IsPlanned task) :
    Spares s (s.spawn task) where
  contents := rfl
  resolver := rfl
  plan _ := rfl
  ready := List.subset_append_left _ _
  begun other hmem := by
    rcases List.mem_append.mp hmem with hready | hnew
    · exact .inl hready
    · exact .inr (.inl (List.mem_singleton.mp hnew ▸ h))
  waiting := List.Subset.refl _

theorem spares_setWatcherState {s : Session σ τ α} {id : WatcherId} {watcher : Watcher α}
    (h : Assoc.get? s.watchers id = some watcher) {state : WatcherState}
    (hcontrol : state.refetchControl = watcher.state.refetchControl) :
    Spares s (s.setWatcherState id state) where
  contents := by rw [store_setWatcherState]
  resolver := by rw [store_setWatcherState]
  plan other := by
    by_cases hother : other = id
    · subst hother
      rw [plan_eq (get?_setWatcherState_self h state), plan_eq h, hcontrol]
    · rw [plan, s.get?_setWatcherState_of_ne hother, plan]
  ready := by
    rw [ready_setWatcherState]
    exact List.Subset.refl _
  begun task htask := .inl (s.ready_setWatcherState id state ▸ htask)
  waiting := by
    rw [setWatcherState, h]
    exact List.Subset.refl _

theorem spares_fetchBegun {s : Session σ τ α} {id : WatcherId} {watcher : Watcher α}
    (h : Assoc.get? s.watchers id = some watcher) {control : CacheControl}
    (hcontrol : control = watcher.options.control ∨ control = watcher.state.refetchControl) :
    Spares s (s.fetchBegun id watcher control) := by
  let issued : Session σ τ α := { s with tokens := s.tokens.fresh.2 }
  let state : WatcherState := { watcher.state with
    generation := watcher.state.generation + 1, active := some s.tokens.fresh.1 }
  have hissued : Spares s issued := .of_eq rfl rfl rfl rfl rfl
  have hset : Spares s (issued.setWatcherState id state) :=
    hissued.trans (spares_setWatcherState (s := issued) h rfl)
  have hspawn : ∀ freed : Session σ τ α, Spares s freed → Spares s (freed.track.spawn
      (.start ⟨.watch id state.generation, { watcher.options with control := control },
        s.tokens.fresh.1⟩)) := by
    intro freed hfreed
    have htracked : Spares s freed.track := hfreed.trans (.of_eq rfl rfl rfl rfl rfl)
    have hplan := (htracked.plan id).trans (plan_eq h)
    exact htracked.trans (spares_spawn _ ⟨id, _, _, control, _, _, hplan, hcontrol, rfl⟩)
  rw [fetchBegun]
  cases watcher.state.active with
  | none => exact hspawn _ hset
  | some superseded => exact hspawn _ (hset.trans (spares_cancelToken _ superseded))

theorem spares_fetch {s : Session σ τ α} {id : WatcherId} {watcher : Watcher α}
    (h : Assoc.get? s.watchers id = some watcher) {control : CacheControl}
    (hcontrol : control = watcher.options.control ∨ control = watcher.state.refetchControl) :
    Spares s (s.fetch id control) := by
  rw [fetch_eq h]
  split
  · exact spares_fetchBegun h hcontrol
  · exact .refl s

theorem spares_refetch (s : Session σ τ α) (id : WatcherId) : Spares s (s.refetch id) := by
  rw [refetch]
  split
  · exact .refl s
  · next h => exact spares_fetch h (.inr rfl)

theorem spares_notify (s : Session σ τ α) (changed : KeySet) : Spares s (s.notify changed) := by
  rw [notify]
  exact .foldl (fun s (notice : Store.Notice WatcherId) => s.spares_refetch _) s _

theorem spares_watch {s s' : Session σ τ α} {id : WatcherId} (h : s.watch id = .ok s') :
    Spares s s' := by
  cases hget : Assoc.get? s.watchers id with
  | none =>
    rw [watch, hget] at h
    cases h
    exact .refl s
  | some watcher =>
    have hset : Spares s (s.setWatcherState id { watcher.state with started := true }) :=
      spares_setWatcherState hget rfl
    rw [watch_eq hget] at h
    split at h
    · cases h
    · split at h
      · cases h
        exact hset.trans (spares_report _ _)
      · cases h
        have hregistered : Spares s (s.watcherRegistered id watcher) :=
          hset.trans (.of_eq rfl rfl rfl rfl rfl)
        have hfound : Assoc.get? (s.watcherRegistered id watcher).watchers id =
            some { watcher with state := { watcher.state with started := true } } :=
          get?_setWatcherState_self hget _
        exact hregistered.trans (spares_fetch hfound (.inl rfl))

theorem spares_unregister (s : Session σ τ α) (id : WatcherId) (name : String) (started : Bool) :
    Spares s (s.unregister id name started) := by
  cases started <;> exact .of_eq rfl rfl rfl rfl rfl

theorem spares_cancelWatcher (s : Session σ τ α) (id : WatcherId) :
    Spares s (s.cancelWatcher id) := by
  cases hget : Assoc.get? s.watchers id with
  | none =>
    rw [cancelWatcher, hget]
    exact .refl s
  | some watcher =>
    cases hcanceled : watcher.state.canceled with
    | true =>
      rw [cancelWatcher_of_canceled hget hcanceled]
      exact .refl s
    | false =>
      let stopped := s.setWatcherState id { watcher.state with
        canceled := true, active := none, subscription := none }
      have hstopped : Spares s stopped := spares_setWatcherState hget rfl
      have hforgotten : ∀ subscription : SubscriptionId, Spares s
          { stopped with store := (stopped.store.unsubscribe subscription).2 } :=
        fun _ => hstopped.trans (.of_eq rfl rfl rfl rfl rfl)
      have htold : ∀ {s' : Session σ τ α} (token : Token), Spares s s' →
          Spares s ((s'.cancelToken token).report [.watched id (.error .canceled)]) :=
        fun token h => (h.trans (spares_cancelToken _ token)).trans (spares_report _ _)
      rw [cancelWatcher, hget]
      simp only [WatcherState.cancel, hcanceled]
      cases watcher.state.subscription <;> cases watcher.state.active
      · exact hstopped.trans (spares_unregister _ _ _ _)
      · exact htold _ (hstopped.trans (spares_unregister _ _ _ _))
      · exact (hforgotten _).trans (spares_unregister _ _ _ _)
      · exact htold _ ((hforgotten _).trans (spares_unregister _ _ _ _))

theorem contents_trackDependencies (w : WatcherState) (id : WatcherId) (keys : KeySet)
    (store : Store σ WatcherId) :
    (w.trackDependencies id keys store).2.contents = store.contents ∧
      (w.trackDependencies id keys store).2.resolver = store.resolver := by
  rw [WatcherState.trackDependencies]
  dsimp only
  split
  · exact ⟨rfl, rfl⟩
  · next subscription _ =>
    cases hget : Assoc.get? store.subscriptions subscription with
    | none => simp only [Store.updateSubscription, hget, Store.subscribe, and_self]
    | some known => simp only [Store.updateSubscription, hget, and_self]

theorem contents_accept (w : WatcherState) (id : WatcherId) (store : Store σ WatcherId)
    (generation : Nat) (ending : Ending Json) :
    (w.accept id store generation ending).store.contents = store.contents ∧
      (w.accept id store generation ending).store.resolver = store.resolver := by
  rw [WatcherState.accept]
  split
  · exact ⟨rfl, rfl⟩
  · cases ending with
    | error failure => cases failure <;> exact ⟨rfl, rfl⟩
    | ok response =>
      have htracked :=
        contents_trackDependencies { w with active := none } id response.dependentKeys store
      dsimp only
      split <;> exact htracked

theorem spares_finishFetch (s : Session σ τ α) (id : WatcherId) (generation : Nat)
    (ending : Ending Json) : Spares s (s.finishFetch id generation ending) := by
  cases hget : Assoc.get? s.watchers id with
  | none =>
    rw [finishFetch, hget]
    exact .of_eq rfl rfl rfl rfl rfl
  | some watcher =>
    let accepted := watcher.state.accept id s.store generation ending
    obtain ⟨hcontents, hresolver⟩ := contents_accept watcher.state id s.store generation ending
    have hstore : Spares s { s with store := accepted.store } :=
      .of_eq hcontents hresolver rfl rfl rfl
    have hcontrol : accepted.state.refetchControl = watcher.state.refetchControl := by
      obtain ⟨-, subscription, hstate⟩ :=
        watcher.state.accept_eq_received id s.store generation ending
      rcases watcher.state.received_cases generation ending with
        ⟨hsame, -⟩ | ⟨-, -, _, hreceived, -⟩
      · rw [show accepted.state = _ from hstate, hsame]
      · rw [show accepted.state = _ from hstate, hreceived]
    have hset := spares_setWatcherState (s := { s with store := accepted.store }) hget hcontrol
    rw [finishFetch, hget]
    dsimp only
    have htold := hstore.trans hset
    split
    · exact htold.trans (.of_eq rfl rfl rfl rfl rfl)
    · exact htold.trans (.of_eq rfl rfl rfl rfl rfl)

/-- Watchers fetch from the cache alone, and all that is to be done is what they begin and what they
are told. -/
structure Offline (s : Session σ τ α) : Prop where
  plans : ∀ id options later, s.plan id = some (options, later) →
    options.IsOffline ∧ later = .cacheOnly
  ready : ∀ task ∈ s.ready, s.IsPlanned task ∨ ∃ changed, task = .notify changed
  waiting : s.waiting = []

namespace Offline

variable {s s' : Session σ τ α}

theorem of_spares (hs : s.Offline) (h : Spares s s') : s'.Offline where
  plans id options later hplan := hs.plans id options later ((h.plan id).symm.trans hplan)
  ready task htask := by
    rcases h.begun task htask with hready | hplanned | ⟨inFlight, hwaits, -⟩
    · exact (hs.ready task hready).imp_left fun hplanned =>
        hplanned.of_plan fun id => (h.plan id).symm
    · exact .inl (hplanned.of_plan fun id => (h.plan id).symm)
    · rw [hs.waiting] at hwaits
      cases hwaits
  waiting := by
    have hwaiting := h.waiting
    rw [hs.waiting] at hwaiting
    exact List.subset_nil.mp hwaiting

theorem taking (hs : s.Offline) (index : Nat) : (s.taking index).Offline where
  plans := hs.plans
  ready task htask := hs.ready task (List.mem_of_mem_eraseIdx htask)
  waiting := hs.waiting

/-- Every fetch is made with the options of its watcher as they are. -/
theorem exists_eq_start (hs : s.Offline) {task : Task} (h : s.IsPlanned task) :
    ∃ id options generation token, s.plan id = some (options, .cacheOnly) ∧ options.IsOffline ∧
      task = .start ⟨.watch id generation, options, token⟩ := by
  obtain ⟨id, options, later, control, generation, token, hplan, hcontrol, rfl⟩ := h
  obtain ⟨hoptions, rfl⟩ := hs.plans id options later hplan
  have hsame : control = options.control := by
    rcases hcontrol with rfl | rfl
    · rfl
    · exact hoptions.control.symm
  exact ⟨id, options, generation, token, hplan, hoptions, by rw [hsame]⟩

end Offline

end Session

/-- A move of a task or of a watcher, or a write of well-formed data. -/
def Move.IsOffline : Move → Prop
  | .write _ data => (Json.object data).WellFormed
  | .execute _ => False
  | .enqueue _ => False
  | .cancelCall _ => False
  | _ => True

namespace Session

variable {σ τ α : Type} [Storage σ] {client : Client τ} {s : Session σ τ α}

/-- How a fetch from the cache ends that is polled now. -/
def readNow (s : Session σ τ α) (operation : Operation) (token : Token) : Ending Json :=
  if s.tokens.isCanceled token then .error .canceled else .ok (s.store.read operation .none).1

/-- Running a fetch gives its watcher what the store reads now. -/
theorem advance_of_start (hclient : ∀ i ∈ client.interceptors, i.IsTransparent) {index : Nat}
    {id : WatcherId} {generation : Nat} {options : CallOptions} {token : Token}
    (hready : s.ready[index]? = some (.start ⟨.watch id generation, options, token⟩))
    (hoptions : options.IsOffline) :
    ∃ crossings : List Pipeline.Crossing, s.move client (.advance index) =
      ((s.taking index).report (crossings.map .crossed)).finishFetch id generation
        (s.readNow options.operation token) := by
  let execution : Execution := ⟨.watch id generation, options, token⟩
  have hexecution : execution.options.IsOffline := hoptions
  obtain ⟨crossings, hdispatch⟩ := dispatch_of_isOffline hclient (s.taking index) hexecution
  refine ⟨crossings, ?_⟩
  have hpoll : (s.taking index).poll client (.start execution) =
      polled execution ((s.taking index).dispatch client execution) := rfl
  rw [move_advance client hready, runTask, hpoll, hdispatch]
  rfl

theorem advance_of_notify {index : Nat} {changed : KeySet}
    (hready : s.ready[index]? = some (.notify changed)) :
    s.move client (.advance index) = (s.taking index).notify changed := by
  rw [move_advance client hready]
  rfl

theorem spares_advance (hclient : ∀ i ∈ client.interceptors, i.IsTransparent) (hs : s.Offline)
    {index : Nat} {task : Task} (hready : s.ready[index]? = some task) :
    Spares (s.taking index) (s.move client (.advance index)) := by
  rcases hs.ready task (List.mem_of_getElem? hready) with hplanned | ⟨changed, rfl⟩
  · obtain ⟨id, options, generation, token, -, hoptions, rfl⟩ := hs.exists_eq_start hplanned
    obtain ⟨crossings, hmove⟩ := advance_of_start hclient hready hoptions
    rw [hmove]
    exact (spares_report _ _).trans (spares_finishFetch _ _ _ _)
  · rw [advance_of_notify hready]
    exact spares_notify _ _

/-- What the user asks of watchers spares the records. -/
theorem spares_move (client : Client τ) (s : Session σ τ α) {m : Move} (hm : m.IsOffline)
    (hadvance : ∀ index, m ≠ .advance index) (hwrite : ∀ operation data, m ≠ .write operation data) :
    Spares s (s.move client m) := by
  cases m with
  | advance index => exact absurd rfl (hadvance index)
  | handOver index => exact .refl s
  | write operation data => exact absurd rfl (hwrite operation data)
  | openGate gate =>
    have hopened : Spares s { s with openGates := gate :: s.openGates } :=
      .of_eq rfl rfl rfl rfl rfl
    exact hopened.trans (spares_wake _ _)
  | execute id => exact hm.elim
  | enqueue id => exact hm.elim
  | cancelCall id => exact hm.elim
  | watch id =>
    change Spares s ((s.watch id).toOption.getD s)
    cases hwatch : s.watch id with
    | error misuse => exact .refl s
    | ok after => exact spares_watch hwatch
  | refetch id => exact s.spares_refetch id
  | cancelWatcher id => exact s.spares_cancelWatcher id
  | rest => exact .refl s

/-- What a move of a session that only asks the cache is: a write, or a task that is run, or what the
user asks of a watcher; only the write does not spare the records. -/
theorem move_cases (hclient : ∀ i ∈ client.interceptors, i.IsTransparent) (hs : s.Offline) {m : Move}
    (hm : m.IsOffline) :
    (∃ operation data, m = .write operation data) ∨
      (∃ index task, m = .advance index ∧ s.ready[index]? = some task ∧
        Spares (s.taking index) (s.move client m)) ∨
      Spares s (s.move client m) := by
  by_cases hwrite : ∃ operation data, m = .write operation data
  · exact .inl hwrite
  · by_cases hadvance : ∃ index, m = .advance index
    · obtain ⟨index, rfl⟩ := hadvance
      cases hready : s.ready[index]? with
      | none =>
        rw [move, hready]
        exact .inr (.inr (.refl s))
      | some task => exact .inr (.inl ⟨index, task, rfl, hready, spares_advance hclient hs hready⟩)
    · rw [not_exists] at hadvance
      exact .inr (.inr (s.spares_move client hm hadvance fun operation data heq =>
        hwrite ⟨operation, data, heq⟩))

omit [Storage σ] in
theorem Offline.publish (hs : s.Offline) (changed : KeySet) : (s.publish changed).Offline := by
  rcases s.publish_cases changed with ⟨-, hsame⟩ | hspawns
  · rwa [hsame]
  · rw [hspawns]
    refine ⟨hs.plans, fun task htask => ?_, hs.waiting⟩
    rcases List.mem_append.mp htask with hready | hnew
    · exact hs.ready task hready
    · exact .inr ⟨changed, List.mem_singleton.mp hnew⟩

omit [Storage σ] in
theorem watchers_publish (s : Session σ τ α) (changed : KeySet) :
    (s.publish changed).watchers = s.watchers := by
  rcases s.publish_cases changed with ⟨-, hsame⟩ | hspawns
  · rw [hsame]
  · rw [hspawns]
    rfl

theorem watchers_writeAndPublish (s : Session σ τ α) (operation : Operation) (data : Json.Object) :
    (s.writeAndPublish operation data).2.watchers = s.watchers :=
  watchers_publish _ _

omit [Storage σ] in
theorem ready_subset_publish (s : Session σ τ α) (changed : KeySet) :
    s.ready ⊆ (s.publish changed).ready := by
  rcases s.publish_cases changed with ⟨-, hsame⟩ | hspawns
  · rw [hsame]
    exact List.Subset.refl _
  · rw [hspawns]
    exact List.subset_append_left _ _

/-- A session that only asks the cache goes on to do so. -/
theorem offline_move (hclient : ∀ i ∈ client.interceptors, i.IsTransparent) (hs : s.Offline)
    {m : Move} (hm : m.IsOffline) : (s.move client m).Offline := by
  rcases move_cases hclient hs hm with
    ⟨operation, data, rfl⟩ | ⟨index, task, rfl, -, hspares⟩ | hspares
  · have hstored : { s with store := (s.store.writeAndPublish operation data).2.2 }.Offline :=
      ⟨hs.plans, hs.ready, hs.waiting⟩
    exact hstored.publish _
  · exact (hs.taking index).of_spares hspares
  · exact hs.of_spares hspares

theorem plan_move (hclient : ∀ i ∈ client.interceptors, i.IsTransparent) (hs : s.Offline) {m : Move}
    (hm : m.IsOffline) (id : WatcherId) : (s.move client m).plan id = s.plan id := by
  rcases move_cases hclient hs hm with
    ⟨operation, data, rfl⟩ | ⟨index, task, rfl, -, hspares⟩ | hspares
  · rw [plan, show (s.move client (.write operation data)).watchers = s.watchers from
      s.watchers_writeAndPublish operation data, plan]
  · exact hspares.plan id
  · exact hspares.plan id

end Session

end GraphClient
