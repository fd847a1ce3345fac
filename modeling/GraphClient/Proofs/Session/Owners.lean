import GraphClient.Proofs.Session.Outline

/-!
# Who a step concerns

An execution belongs to the call or to the watcher that is told how it ends; what a call fetches once
it has succeeded belongs to nobody. What a step changes is changed for one owner, or for nobody
(`Changes`): the owner itself, its executions, and what it is told. Only fetches of watchers may begin
with any step, for a watcher may be woken by anything.

So every other owner is left alone (`Leaves`): the call or watcher is the same, so are its executions
that have not ended and what it was told, and tokens that were canceled stay canceled. A watcher is
passed aside (`Aside`): it is left alone, and in between it may begin fetches.
-/

namespace GraphClient

/-- The one who is told how an execution ends. -/
inductive Owner where
  | call (id : CallId)
  | watcher (id : WatcherId)
deriving DecidableEq

def Purpose.owner? : Purpose → Option Owner
  | .execute id => some (.call id)
  | .enqueue id => some (.call id)
  | .refetch => none
  | .watch id _ => some (.watcher id)

def Task.owner? (task : Task) : Option Owner :=
  task.execution?.bind fun execution => execution.purpose.owner?

/-- The one who is told an event. -/
def Event.owner? {α : Type} : Event α → Option Owner
  | .executed id _ => some (.call id)
  | .misused id _ => some (.call id)
  | .delivered id _ => some (.call id)
  | .watched id _ => some (.watcher id)
  | .crossed _ => none

namespace Outline

variable {α : Type} {owner : Owner} {o o' o'' : Outline α}

/-- The executions of an owner that have not ended. -/
def tasksOf (o : Outline α) (owner : Owner) : Multiset Task :=
  o.tasks.filter fun task => task.owner? = some owner

/-- What an owner was told. -/
def toldTo (o : Outline α) (owner : Owner) : List (Event α) :=
  o.told.filter fun event => event.owner? = some owner

/-- An owner is left alone. -/
structure Leaves (owner : Owner) (o o' : Outline α) : Prop where
  call : ∀ id, owner = .call id → Assoc.get? o'.calls id = Assoc.get? o.calls id
  watcher : ∀ id, owner = .watcher id → Assoc.get? o'.watchers id = Assoc.get? o.watchers id
  tasks : o'.tasksOf owner = o.tasksOf owner
  told : o'.toldTo owner = o.toldTo owner
  canceled : ∀ n ∈ o.tokens.canceled, n ∈ o'.tokens.canceled

namespace Leaves

theorem refl (owner : Owner) (o : Outline α) : Leaves owner o o :=
  ⟨fun _ _ => rfl, fun _ _ => rfl, rfl, rfl, fun _ hn => hn⟩

theorem trans (h : Leaves owner o o') (h' : Leaves owner o' o'') : Leaves owner o o'' where
  call id hid := (h'.call id hid).trans (h.call id hid)
  watcher id hid := (h'.watcher id hid).trans (h.watcher id hid)
  tasks := h'.tasks.trans h.tasks
  told := h'.told.trans h.told
  canceled n hn := h'.canceled n (h.canceled n hn)

theorem setCall (o : Outline α) {id : CallId} (h : owner ≠ .call id) (call : Call α) :
    Leaves owner o (o.setCall id call) where
  call other hother := by
    refine Assoc.get?_insert_of_ne _ _ ?_
    rintro rfl
    exact h hother
  watcher _ _ := rfl
  tasks := rfl
  told := rfl
  canceled _ hn := hn

theorem setWatcher (o : Outline α) {id : WatcherId} (h : owner ≠ .watcher id) (watcher : Watcher α) :
    Leaves owner o (o.setWatcher id watcher) where
  call _ _ := rfl
  watcher other hother := by
    refine Assoc.get?_insert_of_ne _ _ ?_
    rintro rfl
    exact h hother
  tasks := rfl
  told := rfl
  canceled _ hn := hn

theorem add (o : Outline α) {task : Task} (h : task.owner? ≠ some owner) :
    Leaves owner o (o.add task) where
  call _ _ := rfl
  watcher _ _ := rfl
  tasks := Multiset.filter_cons_of_neg _ h
  told := rfl
  canceled _ hn := hn

theorem remove (o : Outline α) {task : Task} (h : task.owner? ≠ some owner) :
    Leaves owner (o.add task) o where
  call _ _ := rfl
  watcher _ _ := rfl
  tasks := (add o h).tasks.symm
  told := rfl
  canceled _ hn := hn

theorem tell (o : Outline α) {event : Event α} (h : event.owner? ≠ some owner) :
    Leaves owner o (o.tell event) where
  call _ _ := rfl
  watcher _ _ := rfl
  tasks := rfl
  told := by
    rw [toldTo, Outline.tell, List.filter_append, List.filter_cons_of_neg (by simpa using h),
      List.filter_nil, List.append_nil, toldTo]
  canceled _ hn := hn

/-- Cancelling tokens and making new ones leaves everybody alone. -/
theorem tokens (owner : Owner) (o : Outline α) {tokens : Tokens}
    (h : ∀ n ∈ o.tokens.canceled, n ∈ tokens.canceled) :
    Leaves owner o { o with tokens := tokens } :=
  ⟨fun _ _ => rfl, fun _ _ => rfl, rfl, rfl, h⟩

theorem cancel (owner : Owner) (o : Outline α) (token : Token) : Leaves owner o (o.cancel token) :=
  tokens owner o fun _ hn => List.mem_cons_of_mem _ hn

theorem fetchBegun (o : Outline α) {id : WatcherId} (h : owner ≠ .watcher id) (watcher : Watcher α)
    (control : CacheControl) : Leaves owner o (o.fetchBegun id watcher control) := by
  have hadd : ∀ (o : Outline α) (generation : Nat) (options : CallOptions) (token : Token),
      Leaves owner o (o.add (.start ⟨.watch id generation, options, token⟩)) := by
    refine fun o generation options token => add o fun howner => h ?_
    exact (Option.some.inj howner).symm
  have hissued : Leaves owner o { o with tokens := o.tokens.fresh.2 } := tokens owner o fun _ hn => hn
  have hset := hissued.trans (setWatcher { o with tokens := o.tokens.fresh.2 } h (o.fetching watcher))
  rw [Outline.fetchBegun]
  cases watcher.state.active with
  | none => exact hset.trans (hadd _ _ _ _)
  | some superseded => exact (hset.trans (cancel owner _ superseded)).trans (hadd _ _ _ _)

theorem watcherCanceled (o : Outline α) {id : WatcherId} (h : owner ≠ .watcher id)
    (watcher : Watcher α) : Leaves owner o (o.watcherCanceled id watcher) := by
  have hset := setWatcher o h (canceling watcher)
  rw [Outline.watcherCanceled]
  cases watcher.state.active with
  | none => exact hset
  | some token =>
    refine (hset.trans (cancel owner _ token)).trans (tell _ fun heq => h ?_)
    exact (Option.some.inj heq).symm

theorem refetching (owner : Owner) (o : Outline α) (parent : Token) (operations : List Operation) :
    Leaves owner o (o.refetching parent operations) := by
  have hissued : Leaves owner o { o with tokens := (o.tokens.child parent).2 } :=
    tokens owner o fun _ hn => hn
  rw [Outline.refetching]
  refine hissued.trans ?_
  generalize { o with tokens := (o.tokens.child parent).2 } = o
  induction operations generalizing o with
  | nil => exact refl owner o
  | cons operation operations ih => exact (add o fun heq => by cases heq).trans (ih _)

end Leaves

/-- An owner is left alone, apart from fetches of watchers that begin. -/
inductive Aside (owner : Owner) (o : Outline α) : Outline α → Prop
  | refl : Aside owner o o
  | leave {o' o'' : Outline α} : Aside owner o o' → Leaves owner o' o'' → Aside owner o o''
  | fetch {o' : Outline α} {id : WatcherId} {watcher : Watcher α} (control : CacheControl) :
      Aside owner o o' → Assoc.get? o'.watchers id = some watcher → watcher.state.started = true →
      watcher.state.canceled = false → Aside owner o (o'.fetchBegun id watcher control)

theorem Leaves.aside (h : Leaves owner o o') : Aside owner o o' := .leave .refl h

theorem Aside.trans (h : Aside owner o o') (h' : Aside owner o' o'') : Aside owner o o'' := by
  induction h' with
  | refl => exact h
  | leave _ hleaves ih => exact ih.leave hleaves
  | fetch control _ hwatcher hstarted hcanceled ih =>
    exact ih.fetch control hwatcher hstarted hcanceled

theorem Fetches.aside (h : Fetches o o') (owner : Owner) : Aside owner o o' := by
  induction h with
  | refl => exact .refl
  | tail control _ hwatcher hstarted hcanceled ih => exact ih.fetch control hwatcher hstarted hcanceled

/-- A call fetches nothing on its own, so nothing happens to it while it is passed aside. -/
theorem Aside.leaves_call {id : CallId} (h : Aside (.call id) o o') : Leaves (.call id) o o' := by
  induction h with
  | refl => exact .refl _ _
  | leave _ hleaves ih => exact ih.trans hleaves
  | fetch control _ _ _ _ ih => exact ih.trans (.fetchBegun _ (by simp) _ control)

theorem Completes.aside {id : CallId} (h : owner ≠ .call id) {call : Call α} {options : CallOptions}
    {ending : Ending Json} (hcompletes : o.Completes id call options ending o') :
    Aside owner o o' := by
  cases hcompletes with
  | alone => exact (Leaves.setCall o h _).aside
  | refetching _ hfetches =>
    have hbegun := (Leaves.setCall o h { call with completed := true }).trans
      (.refetching owner _ call.token options.refetchOperations)
    exact (hbegun.aside.trans (hfetches.aside owner)).leave (.setCall _ h _)

/-- What is changed for an owner, or for nobody. -/
inductive Changes (who : Option Owner) (o : Outline α) : Outline α → Prop
  | refl : Changes who o o
  | add {o' : Outline α} {task : Task} :
      Changes who o o' → task.owner? = who → Changes who o (o'.add task)
  | take {o' : Outline α} {task : Task} :
      Changes who o (o'.add task) → task.owner? = who → Changes who o o'
  | tell {o' : Outline α} {event : Event α} :
      Changes who o o' → event.owner? = who → Changes who o (o'.tell event)
  | call {o' : Outline α} {id : CallId} {call : Call α} (executed completed : Bool) :
      Changes who o o' → who = some (.call id) → Assoc.get? o'.calls id = some call →
      Changes who o (o'.setCall id { call with executed := executed, completed := completed })
  | complete {o' o'' : Outline α} {id : CallId} {call : Call α} {options : CallOptions}
      {ending : Ending Json} : Changes who o o' → who = some (.call id) →
      Assoc.get? o'.calls id = some call → o'.Completes id call options ending o'' →
      Changes who o o''
  | watcher {o' : Outline α} {id : WatcherId} {watcher : Watcher α} {state : WatcherState} :
      Changes who o o' → who = some (.watcher id) → Assoc.get? o'.watchers id = some watcher →
      (∀ token, state.active = some token → watcher.state.active = some token) →
      Changes who o (o'.setWatcher id { watcher with state := state })
  | cancel {o' : Outline α} {id : WatcherId} {watcher : Watcher α} :
      Changes who o o' → who = some (.watcher id) → Assoc.get? o'.watchers id = some watcher →
      Changes who o (o'.watcherCanceled id watcher)
  | fetch {o' : Outline α} {id : WatcherId} {watcher : Watcher α} (control : CacheControl) :
      Changes who o o' → Assoc.get? o'.watchers id = some watcher → watcher.state.started = true →
      watcher.state.canceled = false → Changes who o (o'.fetchBegun id watcher control)

namespace Changes

variable {who : Option Owner}

theorem trans (h : Changes who o o') (h' : Changes who o' o'') : Changes who o o'' := by
  induction h' with
  | refl => exact h
  | add _ htask ih => exact ih.add htask
  | take _ htask ih => exact ih.take htask
  | tell _ hevent ih => exact ih.tell hevent
  | call executed completed _ hwho hcall ih => exact ih.call executed completed hwho hcall
  | complete _ hwho hcall hcompletes ih => exact ih.complete hwho hcall hcompletes
  | watcher _ hwho hwatcher hactive ih => exact ih.watcher hwho hwatcher hactive
  | cancel _ hwho hwatcher ih => exact ih.cancel hwho hwatcher
  | fetch control _ hwatcher hstarted hcanceled ih => exact ih.fetch control hwatcher hstarted hcanceled

/-- What is changed for somebody else passes an owner aside. -/
theorem aside (h : Changes who o o') (hne : who ≠ some owner) : Aside owner o o' := by
  induction h with
  | refl => exact .refl
  | add _ htask ih => exact ih.leave (.add _ fun heq => hne (htask.symm.trans heq))
  | take _ htask ih => exact ih.leave (.remove _ fun heq => hne (htask.symm.trans heq))
  | tell _ hevent ih => exact ih.leave (.tell _ fun heq => hne (hevent.symm.trans heq))
  | call _ _ _ hwho _ ih =>
    exact ih.leave (.setCall _ (fun heq => hne (hwho.trans (congrArg some heq.symm))) _)
  | complete _ hwho _ hcompletes ih =>
    exact ih.trans (hcompletes.aside fun heq => hne (hwho.trans (congrArg some heq.symm)))
  | watcher _ hwho _ _ ih =>
    exact ih.leave (.setWatcher _ (fun heq => hne (hwho.trans (congrArg some heq.symm))) _)
  | cancel _ hwho _ ih =>
    exact ih.leave (.watcherCanceled _ (fun heq => hne (hwho.trans (congrArg some heq.symm))) _)
  | fetch control _ hwatcher hstarted hcanceled ih => exact ih.fetch control hwatcher hstarted hcanceled

end Changes

theorem Fetches.changes (h : Fetches o o') (who : Option Owner) : Changes who o o' := by
  induction h with
  | refl => exact .refl
  | tail control _ hwatcher hstarted hcanceled ih => exact ih.fetch control hwatcher hstarted hcanceled

end Outline

namespace Session

variable {σ τ α : Type}

/-- The end of an execution changes something for its owner. -/
theorem changes_finish (s : Session σ τ α) (execution : Execution) (ending : Ending Json) :
    s.outline.Changes execution.purpose.owner? (s.finish execution ending).outline := by
  obtain ⟨purpose, options, token⟩ := execution
  cases purpose with
  | execute id =>
    change s.outline.Changes _ (s.finishExecute id options ending).outline
    cases hcall : Assoc.get? s.calls id with
    | none =>
      rw [outline_finishExecute_of_none hcall]
      exact .refl
    | some call =>
      obtain ⟨completed, hcompletes, houtline⟩ := outline_finishExecute hcall options ending
      rw [houtline]
      exact .tell (.complete .refl rfl hcall hcompletes) rfl
  | enqueue id =>
    change s.outline.Changes _ (s.finishEnqueue id options ending).outline
    cases hcall : Assoc.get? s.calls id with
    | none =>
      rw [outline_finishEnqueue_of_none hcall]
      exact .refl
    | some call =>
      obtain ⟨completed, hcompletes, houtline⟩ := outline_finishEnqueue hcall options ending
      rw [houtline]
      exact .tell (.complete .refl rfl hcall hcompletes) rfl
  | refetch => exact .refl
  | watch id generation =>
    change s.outline.Changes _ (s.finishFetch id generation ending).outline
    cases hwatcher : Assoc.get? s.watchers id with
    | none =>
      rw [outline_finishFetch_of_none hwatcher]
      exact .refl
    | some watcher =>
      obtain ⟨-, _, hstate⟩ := watcher.state.accept_eq_received id s.store generation ending
      have hactive := watcher.state.active_received generation ending
      have hset : s.outline.Changes (some (.watcher id)) (s.outline.setWatcher id { watcher with
          state := (watcher.state.accept id s.store generation ending).state }) := by
        refine .watcher .refl rfl hwatcher ?_
        rw [hstate]
        exact hactive
      rw [outline_finishFetch hwatcher]
      split
      · exact hset.tell rfl
      · exact hset

theorem changes_startCall {s s' : Session σ τ α} {id : CallId} (h : s.startCall id = .ok s') :
    s.outline.Changes (some (.call id)) s'.outline := by
  cases hcall : Assoc.get? s.calls id with
  | none =>
    rw [startCall, hcall] at h
    cases h
    exact .refl
  | some call =>
    cases hexecuted : call.executed with
    | true =>
      rw [startCall_of_executed hcall hexecuted] at h
      cases h
    | false =>
      rw [startCall_of_not_executed hcall hexecuted] at h
      cases h
      exact .call true call.completed .refl rfl hcall

theorem changes_watch {s s' : Session σ τ α} {id : WatcherId} (h : s.watch id = .ok s') :
    s.outline.Changes (some (.watcher id)) s'.outline := by
  cases hwatcher : Assoc.get? s.watchers id with
  | none =>
    rw [watch, hwatcher] at h
    cases h
    exact .refl
  | some watcher =>
    have hset : s.outline.Changes (some (.watcher id)) (s.outline.setWatcher id
        { watcher with state := { watcher.state with started := true } }) :=
      .watcher .refl rfl hwatcher fun _ hactive => hactive
    cases hstarted : watcher.state.started with
    | true =>
      rw [watch_of_started hwatcher hstarted] at h
      cases h
    | false =>
      cases hcanceled : watcher.state.canceled with
      | true =>
        obtain ⟨after, hafter, houtline⟩ := watch_of_canceled hwatcher hstarted hcanceled
        cases hafter.symm.trans h
        rw [houtline]
        exact hset.tell rfl
      | false =>
        obtain ⟨after, hafter, hfetches⟩ := watch_of_live hwatcher hstarted hcanceled
        cases hafter.symm.trans h
        exact hset.trans (hfetches.changes _)

theorem changes_cancelWatcher (s : Session σ τ α) (id : WatcherId) :
    s.outline.Changes (some (.watcher id)) (s.cancelWatcher id).outline := by
  cases hwatcher : Assoc.get? s.watchers id with
  | none =>
    rw [cancelWatcher, hwatcher]
    exact .refl
  | some watcher =>
    cases hcanceled : watcher.state.canceled with
    | true =>
      rw [cancelWatcher_of_canceled hwatcher hcanceled]
      exact .refl
    | false =>
      rw [outline_cancelWatcher hwatcher hcanceled]
      exact .cancel .refl rfl hwatcher

theorem changes_execute (s : Session σ τ α) (id : CallId) :
    s.outline.Changes (some (.call id)) (s.execute id).outline := by
  cases hcall : Assoc.get? s.calls id with
  | none =>
    rw [execute, hcall]
    exact .refl
  | some call =>
    rw [outline_execute hcall]
    exact .add .refl rfl

theorem changes_enqueue {s s' : Session σ τ α} {id : CallId} (h : s.enqueue id = .ok s') :
    s.outline.Changes (some (.call id)) s'.outline := by
  cases hcall : Assoc.get? s.calls id with
  | none =>
    rw [enqueue, hcall] at h
    cases h
    exact .refl
  | some call =>
    cases hexecuted : call.executed with
    | true =>
      rw [enqueue_of_executed hcall hexecuted] at h
      cases h
    | false =>
      rw [enqueue_of_not_executed hcall hexecuted] at h
      cases h
      rw [outline_spawn_start]
      exact .add (.call true call.completed .refl rfl hcall) rfl

/-- Cancelling a call changes tokens only, so everybody is left alone. -/
theorem leaves_cancelCall (s : Session σ τ α) (owner : Owner) (id : CallId) :
    s.outline.Leaves owner (s.cancelCall id).outline := by
  cases hcall : Assoc.get? s.calls id with
  | none =>
    rw [cancelCall, hcall]
    exact .refl _ _
  | some call =>
    rw [outline_cancelCall hcall]
    exact .tokens owner _ fun n hn => Call.mem_canceled_cancel.mpr (.inr (.inr hn))

end Session

end GraphClient
