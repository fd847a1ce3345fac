import GraphClient.Proofs.Session.Interleaving

/-!
# Watchers under several threads

An operation on a watcher is a sequence of critical sections: each holds one lock, and between two of
them any other thread may run. A `Section` is one of these; `perform` carries it out and says what is
left for the operation to do, since that depends on what the section has found (`Performs` has the
cases). Starting a watcher leaves its registration and its first fetch; cancelling it leaves the end
of its subscription, of its registration and of its newest fetch. An operation with nothing in between
is the function of the library of that name (`watch_eq_carryOut`, `cancelWatcher_eq_carryOut`).

`Concurrent` is an interleaving of tasks in which the operations on watchers are taken apart. Every
operation under way is a thread with the sections that it has still to carry out, and `act` goes on
with any of the threads, or makes a move of a task. What an act does is one of the cases of `Acts`.
-/

namespace GraphClient

/-- A critical section of an operation on watchers. -/
inductive Section where
  /-- Marks a watcher as started. -/
  | start (watcher : WatcherId)
  | register (watcher : WatcherId)
  /-- Has a watcher that is started fetch for the first time. -/
  | fetch (watcher : WatcherId)
  /-- Tells a watcher that it was canceled before it is started. -/
  | refuse (watcher : WatcherId)
  | refetch (watcher : WatcherId)
  /-- Marks a watcher as canceled. -/
  | cancel (watcher : WatcherId)
  | unsubscribe (watcher : WatcherId) (subscription : SubscriptionId)
  | unregister (watcher : WatcherId)
  /-- Cancels the fetch that is out, and tells the watcher. -/
  | halt (watcher : WatcherId) (token : Token)
deriving DecidableEq

namespace Section

def watcher : Section → WatcherId
  | start watcher | register watcher | fetch watcher | refuse watcher | refetch watcher
  | cancel watcher | unsubscribe watcher _ | unregister watcher | halt watcher _ => watcher

/-- Whether an operation begins with the section. -/
def opens : Section → Bool
  | start _ | refetch _ | cancel _ => true
  | _ => false

end Section

/-- What a watcher that is not canceled leaves once it is. -/
def WatcherState.cancellation (w : WatcherState) : WatcherState.Cancellation where
  state := { w with canceled := true, active := none, subscription := none }
  inFlight := w.active
  subscription := w.subscription
  started := w.started

theorem WatcherState.cancel_of_live {w : WatcherState} (h : w.canceled = false) :
    w.cancel = some w.cancellation := by
  rw [cancel, h]
  rfl

/-- What is left to do once a watcher is marked as canceled. -/
def WatcherState.Cancellation.sections (canceled : WatcherState.Cancellation)
    (watcher : WatcherId) : List Section :=
  (canceled.subscription.map (.unsubscribe watcher)).toList ++
    (if canceled.started then [.unregister watcher] else []) ++
    (canceled.inFlight.map (.halt watcher)).toList

namespace Session

variable {σ τ α : Type}

/-- Carries out a section: the session afterwards, and what it leaves to do. -/
def perform (s : Session σ τ α) : Section → Session σ τ α × List Section
  | .start id =>
    match Assoc.get? s.watchers id with
    | none => (s, [])
    | some watcher =>
      match watcher.state.start with
      | .error _ => (s, [])
      | .ok state =>
        (s.setWatcherState id state,
          if state.canceled then [.refuse id] else [.register id, .fetch id])
  | .register id =>
    match Assoc.get? s.watchers id with
    | none => (s, [])
    | some watcher =>
      ({ s with tracker := s.tracker.register watcher.options.operation.name id }, [])
  | .fetch id =>
    match Assoc.get? s.watchers id with
    | none => (s, [])
    | some watcher => (s.fetch id watcher.options.control, [])
  | .refuse id => (s.report [.watched id (.error .canceled)], [])
  | .refetch id => (s.refetch id, [])
  | .cancel id =>
    match Assoc.get? s.watchers id with
    | none => (s, [])
    | some watcher =>
      match watcher.state.cancel with
      | none => (s, [])
      | some canceled => (s.setWatcherState id canceled.state, canceled.sections id)
  | .unsubscribe _ subscription =>
    ({ s with store := (s.store.unsubscribe subscription).2 }, [])
  | .unregister id =>
    match Assoc.get? s.watchers id with
    | none => (s, [])
    | some watcher =>
      ({ s with tracker := s.tracker.unregister watcher.options.operation.name id }, [])
  | .halt id token => ((s.cancelToken token).report [.watched id (.error .canceled)], [])

/-- Carries out sections that leave nothing to do, one after the other. -/
def carryOut (s : Session σ τ α) (sections : List Section) : Session σ τ α :=
  sections.foldl (fun s sec => (s.perform sec).1) s

theorem perform_start {s : Session σ τ α} {id : WatcherId} {watcher : Watcher α}
    (h : Assoc.get? s.watchers id = some watcher) :
    s.perform (.start id) =
      if watcher.state.started then (s, [])
      else (s.setWatcherState id { watcher.state with started := true },
        if watcher.state.canceled then [.refuse id] else [.register id, .fetch id]) := by
  simp only [perform, h]
  rw [WatcherState.start]
  cases watcher.state.started <;> rfl

theorem perform_register {s : Session σ τ α} {id : WatcherId} {watcher : Watcher α}
    (h : Assoc.get? s.watchers id = some watcher) :
    s.perform (.register id) =
      ({ s with tracker := s.tracker.register watcher.options.operation.name id }, []) := by
  simp only [perform, h]

theorem perform_fetch {s : Session σ τ α} {id : WatcherId} {watcher : Watcher α}
    (h : Assoc.get? s.watchers id = some watcher) :
    s.perform (.fetch id) = (s.fetch id watcher.options.control, []) := by
  simp only [perform, h]

theorem perform_cancel {s : Session σ τ α} {id : WatcherId} {watcher : Watcher α}
    (h : Assoc.get? s.watchers id = some watcher) :
    s.perform (.cancel id) =
      match watcher.state.cancel with
      | none => (s, [])
      | some canceled => (s.setWatcherState id canceled.state, canceled.sections id) := by
  simp only [perform, h]

theorem perform_unregister {s : Session σ τ α} {id : WatcherId} {watcher : Watcher α}
    (h : Assoc.get? s.watchers id = some watcher) :
    s.perform (.unregister id) =
      ({ s with tracker := s.tracker.unregister watcher.options.operation.name id }, []) := by
  simp only [perform, h]

/-- What a section can do: nothing, if it does not find its watcher or the watcher bears the mark
already that it makes; or its part of the operation. -/
inductive Performs (s : Session σ τ α) : Section → Session σ τ α × List Section → Prop
  | rests {sec} : (∀ watcher, Assoc.get? s.watchers sec.watcher = some watcher → sec.opens = true) →
      Performs s sec (s, [])
  | starts {id watcher} : Assoc.get? s.watchers id = some watcher → watcher.state.started = false →
      Performs s (.start id) (s.setWatcherState id { watcher.state with started := true },
        if watcher.state.canceled then [.refuse id] else [.register id, .fetch id])
  | registers {id watcher} : Assoc.get? s.watchers id = some watcher →
      Performs s (.register id)
        ({ s with tracker := s.tracker.register watcher.options.operation.name id }, [])
  | fetches {id watcher} : Assoc.get? s.watchers id = some watcher →
      Performs s (.fetch id) (s.fetch id watcher.options.control, [])
  | refuses {id} : Performs s (.refuse id) (s.report [.watched id (.error .canceled)], [])
  | refetches {id} : Performs s (.refetch id) (s.refetch id, [])
  | cancels {id watcher} : Assoc.get? s.watchers id = some watcher →
      watcher.state.canceled = false →
      Performs s (.cancel id) (s.setWatcherState id watcher.state.cancellation.state,
        watcher.state.cancellation.sections id)
  | unsubscribes {id subscription} : Performs s (.unsubscribe id subscription)
      ({ s with store := (s.store.unsubscribe subscription).2 }, [])
  | unregisters {id watcher} : Assoc.get? s.watchers id = some watcher →
      Performs s (.unregister id)
        ({ s with tracker := s.tracker.unregister watcher.options.operation.name id }, [])
  | halts {id token} : Performs s (.halt id token)
      ((s.cancelToken token).report [.watched id (.error .canceled)], [])

theorem performs_perform (s : Session σ τ α) (sec : Section) : s.Performs sec (s.perform sec) := by
  cases hget : Assoc.get? s.watchers sec.watcher with
  | none =>
    have hrests : s.Performs sec (s, []) := .rests fun watcher h => by cases hget.symm.trans h
    cases sec <;> dsimp only [Section.watcher] at hget
    case refuse => exact .refuses
    case refetch => exact .refetches
    case unsubscribe => exact .unsubscribes
    case halt => exact .halts
    -- the other sections look their watcher up
    all_goals
      rw [perform, hget]
      exact hrests
  | some watcher =>
    cases sec <;> dsimp only [Section.watcher] at hget
    case start id =>
      rw [perform_start hget]
      cases hstarted : watcher.state.started with
      | true => exact .rests fun _ _ => rfl
      | false => exact .starts hget hstarted
    case register id =>
      rw [perform_register hget]
      exact .registers hget
    case fetch id =>
      rw [perform_fetch hget]
      exact .fetches hget
    case refuse => exact .refuses
    case refetch => exact .refetches
    case cancel id =>
      rw [perform_cancel hget]
      cases hlive : watcher.state.canceled with
      | true =>
        rw [WatcherState.cancel_of_canceled hlive]
        exact .rests fun _ _ => rfl
      | false =>
        rw [WatcherState.cancel_of_live hlive]
        exact .cancels hget hlive
    case unsubscribe => exact .unsubscribes
    case unregister id =>
      rw [perform_unregister hget]
      exact .unregisters hget
    case halt => exact .halts

theorem carryOut_append (s : Session σ τ α) (first second : List Section) :
    s.carryOut (first ++ second) = (s.carryOut first).carryOut second :=
  List.foldl_append

/-- Starting a watcher is its sections with nothing in between. -/
theorem watch_eq_carryOut (s : Session σ τ α) (id : WatcherId) :
    (s.watch id).toOption.getD s =
      (s.perform (.start id)).1.carryOut (s.perform (.start id)).2 := by
  cases h : Assoc.get? s.watchers id with
  | none =>
    simp only [watch, perform, h]
    rfl
  | some watcher =>
    have hmarked := get?_setWatcherState_self h { watcher.state with started := true }
    have hregister : (s.setWatcherState id { watcher.state with started := true }).perform
        (.register id) = (s.watcherRegistered id watcher, []) := by
      rw [perform_register hmarked]
      rfl
    have hfetch : (s.watcherRegistered id watcher).perform (.fetch id) =
        ((s.watcherRegistered id watcher).fetch id watcher.options.control, []) := by
      rw [perform_fetch (s := s.watcherRegistered id watcher) hmarked]
    rw [perform_start h, watch_eq h]
    cases watcher.state.started with
    | true => rfl
    | false =>
      cases watcher.state.canceled with
      | true => rfl
      | false =>
        simp only [Bool.false_eq_true, if_false, carryOut, List.foldl_cons, List.foldl_nil,
          hregister, hfetch]
        rfl

/-- Cancelling a watcher is its sections with nothing in between. -/
theorem cancelWatcher_eq_carryOut (s : Session σ τ α) (id : WatcherId) :
    s.cancelWatcher id = (s.perform (.cancel id)).1.carryOut (s.perform (.cancel id)).2 := by
  cases h : Assoc.get? s.watchers id with
  | none =>
    simp only [cancelWatcher, perform, h]
    rfl
  | some watcher =>
    rw [perform_cancel h, cancelWatcher, h]
    dsimp only
    cases watcher.state.cancel with
    | none => rfl
    | some canceled =>
      have hmarked := get?_setWatcherState_self h canceled.state
      dsimp only
      generalize s.setWatcherState id canceled.state = marked at hmarked
      have hunregister : ∀ freed : Session σ τ α, freed.watchers = marked.watchers →
          freed.carryOut (if canceled.started then [.unregister id] else []) =
            freed.unregister id watcher.options.operation.name canceled.started := by
        intro freed hsame
        cases canceled.started with
        | false => rfl
        | true =>
          have hget : Assoc.get? freed.watchers id =
              some { watcher with state := canceled.state } := hsame ▸ hmarked
          exact congrArg Prod.fst (perform_unregister hget)
      rw [WatcherState.Cancellation.sections, carryOut_append, carryOut_append]
      have hfreed : (marked.carryOut
          (canceled.subscription.map (.unsubscribe id)).toList).watchers = marked.watchers := by
        cases canceled.subscription <;> rfl
      rw [hunregister _ hfreed]
      cases canceled.subscription <;> cases canceled.inFlight <;> rfl

/-- A notification has the watchers fetch one after the other. -/
theorem notify_eq_carryOut (s : Session σ τ α) (changed : KeySet) :
    s.notify changed = s.carryOut
      ((s.store.notices (some changed)).map fun notice => .refetch notice.subscriber) := by
  rw [notify, carryOut, List.foldl_map]
  rfl

end Session

namespace Interleaved

variable {σ τ α : Type}

/-- The sections with which a move begins that is an operation on watchers. A notification begins to
have the watchers fetch that depend on what has changed. -/
def opens? (s : Interleaved σ τ α) : Move → Option (List Section)
  | .watch id => some [.start id]
  | .refetch id => some [.refetch id]
  | .cancelWatcher id => some [.cancel id]
  | .advance index =>
    match s.session.ready[index]? with
    | some (.notify changed) =>
      some ((s.session.store.notices (some changed)).map fun notice => .refetch notice.subscriber)
    | _ => none
  | _ => none

/-- What is left of the tasks once a move begins that is an operation on watchers. -/
def without (s : Interleaved σ τ α) : Move → Interleaved σ τ α
  | .advance index => { s with session := s.taking index }
  | _ => s

/-- The tasks are the same, but for a notification that was taken to be carried out. -/
def Withdraws (s s' : Interleaved σ τ α) : Prop :=
  s' = s ∨ ∃ index changed, s.session.ready[index]? = some (.notify changed) ∧
    s' = { s with session := s.taking index }

theorem withdraws_without {s : Interleaved σ τ α} {move : Move} {sections : List Section}
    (h : s.opens? move = some sections) :
    s.Withdraws (s.without move) ∧ ∀ sec ∈ sections, sec.opens = true := by
  cases move with
  | advance index =>
    rw [opens?] at h
    split at h
    · next changed hready =>
      cases h
      refine ⟨.inr ⟨index, changed, hready, rfl⟩, fun sec hsec => ?_⟩
      obtain ⟨notice, -, rfl⟩ := List.mem_map.mp hsec
      rfl
    · cases h
  | watch id =>
    cases h
    exact ⟨.inl rfl, List.forall_mem_singleton.mpr rfl⟩
  | refetch id =>
    cases h
    exact ⟨.inl rfl, List.forall_mem_singleton.mpr rfl⟩
  | cancelWatcher id =>
    cases h
    exact ⟨.inl rfl, List.forall_mem_singleton.mpr rfl⟩
  | _ => cases h

end Interleaved

/-- Tasks that interleave, and operations on watchers that are under way. -/
structure Concurrent (σ τ α : Type) where
  tasks : Interleaved σ τ α
  /-- What every operation has still to carry out, in order; nothing, once it has returned. -/
  threads : List (List Section) := []
  /-- The sections that were carried out, in order. -/
  performed : List Section := []
  /-- The responses that watchers have accepted, in order. -/
  accepted : List Answer := []

inductive Act where
  /-- Makes a move, or begins it if it is an operation on watchers. -/
  | move (move : Move)
  /-- Begins to cancel all watchers that are registered. -/
  | close
  /-- Has an operation carry out its next section. -/
  | proceed (thread : Nat)

namespace Concurrent

variable {σ τ α : Type}

/-- The sections that operations under way have still to carry out. -/
def pending (s : Concurrent σ τ α) : List Section := s.threads.flatten

section Step

variable [Storage σ]

/-- Goes on with a task or an operation. An act that is not possible changes nothing. -/
def act (client : Client τ) (s : Concurrent σ τ α) : Act → Concurrent σ τ α
  | .move move =>
    match s.tasks.opens? move with
    | some sections =>
      { s with tasks := s.tasks.without move, threads := s.threads ++ [sections] }
    | none =>
      { s with
        tasks := s.tasks.step client move
        accepted := s.accepted ++ (s.tasks.accepted? move).toList }
  | .close =>
    { s with threads := s.threads ++ [s.tasks.session.tracker.allWatchers.map .cancel] }
  | .proceed thread =>
    match s.threads[thread]? with
    | some (sec :: rest) =>
      { s with
        tasks := { s.tasks with session := (s.tasks.session.perform sec).1 }
        threads := s.threads.set thread ((s.tasks.session.perform sec).2 ++ rest)
        performed := s.performed ++ [sec] }
    | _ => s

def run (client : Client τ) (s : Concurrent σ τ α) (acts : List Act) : Concurrent σ τ α :=
  acts.foldl (act client) s

/-- What an act can do: nothing; a move of a task; the beginning of an operation; or the next section
of an operation under way. -/
inductive Acts (client : Client τ) (s : Concurrent σ τ α) : Concurrent σ τ α → Prop
  | rests : Acts client s s
  | moves {move} : s.tasks.opens? move = none →
      Acts client s { s with
        tasks := s.tasks.step client move
        accepted := s.accepted ++ (s.tasks.accepted? move).toList }
  | begins {tasks sections} : s.tasks.Withdraws tasks → (∀ sec ∈ sections, sec.opens = true) →
      Acts client s { s with tasks := tasks, threads := s.threads ++ [sections] }
  | proceeds {before sec rest after} : s.threads = before ++ (sec :: rest) :: after →
      Acts client s { s with
        tasks := { s.tasks with session := (s.tasks.session.perform sec).1 }
        threads := before ++ ((s.tasks.session.perform sec).2 ++ rest) :: after
        performed := s.performed ++ [sec] }

theorem acts_act (client : Client τ) (s : Concurrent σ τ α) (a : Act) :
    s.Acts client (s.act client a) := by
  cases a with
  | move move =>
    rw [act]
    cases h : s.tasks.opens? move with
    | none => exact .moves h
    | some sections =>
      obtain ⟨hwithdraws, hopens⟩ := Interleaved.withdraws_without h
      exact .begins hwithdraws hopens
  | close =>
    refine .begins (.inl rfl) fun sec hsec => ?_
    obtain ⟨id, -, rfl⟩ := List.mem_map.mp hsec
    rfl
  | proceed thread =>
    rw [act]
    split
    · next sec rest hthread =>
      obtain ⟨hindex, hget⟩ := List.getElem?_eq_some_iff.mp hthread
      have hthreads : s.threads =
          s.threads.take thread ++ (sec :: rest) :: s.threads.drop (thread + 1) := by
        rw [← hget, List.getElem_cons_drop, List.take_append_drop]
      rw [List.set_eq_take_append_cons_drop, if_pos hindex]
      exact .proceeds hthreads
    · exact .rests

/-- What every act keeps holds after a run. -/
theorem run_induction {client : Client τ} {motive : Concurrent σ τ α → Prop}
    (hstep : ∀ {s s'}, motive s → s.Acts client s' → motive s') {s : Concurrent σ τ α}
    (hs : motive s) (acts : List Act) : motive (s.run client acts) := by
  induction acts generalizing s with
  | nil => exact hs
  | cons a acts ih => exact ih (hstep hs (s.acts_act client a))

end Step

theorem pending_begins (s : Concurrent σ τ α) (tasks : Interleaved σ τ α)
    (sections : List Section) :
    { s with tasks := tasks, threads := s.threads ++ [sections] }.pending =
      s.pending ++ sections := by
  rw [pending, List.flatten_append, List.flatten_singleton, pending]

/-- Carrying out a section puts what it leaves to do in its place. -/
theorem exists_pending_proceeds {threads before after : List (List Section)} {sec : Section}
    {rest : List Section} (h : threads = before ++ (sec :: rest) :: after) :
    ∃ others, threads.flatten.Perm (sec :: others) ∧
      ∀ more, (before ++ (more ++ rest) :: after).flatten.Perm (more ++ others) := by
  subst h
  refine ⟨before.flatten ++ (rest ++ after.flatten), ?_, fun more => ?_⟩
  · rw [List.flatten_append, List.flatten_cons, List.cons_append]
    exact List.perm_middle
  · rw [List.flatten_append, List.flatten_cons, List.append_assoc]
    exact List.perm_append_comm_assoc _ _ _

/-- A section that stands in a thread once another section was carried out is what that one has left
to do, or stood there before. -/
theorem mem_of_proceeds {threads before after : List (List Section)} {sec : Section}
    {rest left : List Section} (h : threads = before ++ (sec :: rest) :: after) {thread : Nat}
    {sections : List Section} (hget : (before ++ (left ++ rest) :: after)[thread]? = some sections)
    {other : Section} (hmem : other ∈ sections) :
    other ∈ left ∨ ∃ old, threads[thread]? = some old ∧ other ∈ old := by
  have hset : before ++ (left ++ rest) :: after = threads.set before.length (left ++ rest) := by
    rw [h, List.set_append_right _ _ (Nat.le_refl _), Nat.sub_self, List.set_cons_zero]
  rw [hset, List.getElem?_set] at hget
  split at hget
  · next hthread =>
    subst hthread
    have hold : threads[before.length]? = some (sec :: rest) := by
      rw [h, List.getElem?_append_right (Nat.le_refl _), Nat.sub_self, List.getElem?_cons_zero]
    obtain ⟨-, hget⟩ := Option.ite_none_right_eq_some.mp hget
    obtain rfl := Option.some.inj hget
    refine (List.mem_append.mp hmem).imp_right fun hrest => ?_
    exact ⟨_, hold, List.mem_cons_of_mem _ hrest⟩
  · exact .inr ⟨sections, hget, hmem⟩

/-- What is read off the sections that are pending changes by what is read off the section carried out
and off what it leaves to do. -/
theorem exists_filterMap_proceeds {β : Type} (f : Section → Option β)
    {threads before after : List (List Section)} {sec : Section} {rest : List Section}
    (h : threads = before ++ (sec :: rest) :: after) :
    ∃ others, (threads.flatten.filterMap f).Perm ((f sec).toList ++ others) ∧
      ∀ more, ((before ++ (more ++ rest) :: after).flatten.filterMap f).Perm
        (more.filterMap f ++ others) := by
  obtain ⟨others, hbefore, hafter⟩ := exists_pending_proceeds h
  refine ⟨others.filterMap f, (hbefore.filterMap f).trans (.of_eq ?_), fun more => ?_⟩
  · rw [List.filterMap_cons]
    cases f sec <;> rfl
  · rw [← List.filterMap_append]
    exact (hafter more).filterMap f

end Concurrent

end GraphClient
