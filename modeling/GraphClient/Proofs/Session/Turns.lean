import GraphClient.Proofs.Session.Fetching
import GraphClient.Proofs.Session.Moving

/-!
# What a turn is for a watcher

A watcher sees a session as a sequence of turns. A turn is a move of a task or of the user, a
notification, or the end of an execution. Notifications may be of any field keys and executions may
end in any way, so that nothing is assumed of the pipeline and of the store.

For a watcher that is orderly a turn is one of four things (`Turned`), and it stays orderly
(`turned_turn`).
-/

namespace GraphClient

/-- What happens to a session at once. -/
inductive Turn where
  | move (m : Move)
  /-- The watchers are notified of changed field keys. -/
  | notify (changed : KeySet)
  /-- A ready execution ends like this, whatever the pipeline would make of it. -/
  | complete (index : Nat) (ending : Ending Json)

theorem Task.exists_watch_of_owner? {task : Task} {id : WatcherId}
    (h : task.owner? = some (.watcher id)) : ∃ generation options token,
      task.execution? = some ⟨.watch id generation, options, token⟩ ∧
        task.fetchOf? id = some (generation, token) ∧ task.begins? = none := by
  obtain ⟨⟨purpose, options, token⟩, hexecution, howner⟩ := Option.bind_eq_some_iff.mp h
  cases purpose with
  | watch watcher generation =>
    cases howner
    refine ⟨generation, options, token, hexecution, ?_, ?_⟩
    · rw [fetchOf?, hexecution, Option.bind_some]
      exact if_pos rfl
    · cases task with
      | start execution => cases hexecution; rfl
      | _ => rfl
  | _ => cases howner

namespace Session

variable {σ τ α : Type}

/-- The fetches of a watcher that have not ended, by generation and token. -/
def unfinished (s : Session σ τ α) (id : WatcherId) : List (Nat × Token) :=
  s.executions.filterMap (Task.fetchOf? id)

/-- What the callback of a watcher was told, in order. -/
def heardBy (s : Session σ τ α) (id : WatcherId) : List (Ending α) :=
  s.events.filterMap (Event.heardBy? id)

theorem fetchesOf_outline (s : Session σ τ α) (id : WatcherId) :
    s.outline.fetchesOf id = s.unfinished id := rfl

theorem heardBy_outline (s : Session σ τ α) (id : WatcherId) :
    s.outline.heardBy id = s.heardBy id := by
  have htold : (fun event : Event α => if event.isTold = true then event.heardBy? id else none) =
      Event.heardBy? id := by
    funext event
    cases event with
    | crossed crossing => exact if_neg Bool.false_ne_true
    | _ => exact if_pos rfl
  change (s.events.filter Event.isTold).filterMap _ = _
  rw [List.filterMap_filter, htold, heardBy]

variable [Storage σ]

/-- Takes a turn. One that is not possible changes nothing. -/
def turn (client : Client τ) (s : Session σ τ α) : Turn → Session σ τ α
  | .move m => s.move client m
  | .notify changed => s.notify changed
  | .complete index ending =>
    match (s.ready[index]?).bind Task.execution? with
    | none => s
    | some execution => (s.taking index).finish execution ending

/-- The session after so many turns. -/
def play (client : Client τ) (s : Session σ τ α) (turns : Nat → Turn) : Nat → Session σ τ α
  | 0 => s
  | time + 1 => (play client s turns time).turn client (turns time)

/-- The generation of a fetch of a watcher that ends with a turn, and how it ends. -/
def completed? (client : Client τ) (s : Session σ τ α) (id : WatcherId) :
    Turn → Option (Nat × Ending Json)
  | .move (.advance index) =>
    match (s.ready[index]?).bind fun task => ((s.taking index).poll client task).1 with
    | some (execution, .ended ending) => (execution.fetchOf? id).map fun fetch => (fetch.1, ending)
    | _ => none
  | .complete index ending =>
    ((s.ready[index]?).bind (Task.fetchOf? id)).map fun fetch => (fetch.1, ending)
  | _ => none

end Session

namespace Outline

variable {α : Type} {id : WatcherId} {o o' : Outline α} {watcher : Watcher α}

theorem Continues.of_eq (hfetches : o'.fetchesOf id = o.fetchesOf id)
    (hheard : o'.heardBy id = o.heardBy id) (watcher : Watcher α) :
    Continues id o o' watcher watcher where
  heard := hheard
  decoder := rfl
  started h := h
  canceled := rfl
  lastDelivered := rfl
  generation := Nat.le_refl _
  newer _ hf := .inl (hfetches ▸ hf)
  rests _ := ⟨rfl, hfetches⟩

/-- What a turn is for a watcher, when this fetch of it ends with the turn. -/
inductive Turned (id : WatcherId) (turn : Turn) (completed : Option (Nat × Ending Json))
    (o o' : Outline α) (watcher : Watcher α) : Watcher α → Prop
  | aside {watcher' : Watcher α} : completed = none →
      (turn = .move (.cancelWatcher id) → watcher.state.canceled = true) →
      Continues id o o' watcher watcher' → Turned id turn completed o o' watcher watcher'
  | ended {generation : Nat} {token : Token} {ending : Ending Json}
      (subscription : Option SubscriptionId) : completed = some (generation, ending) →
      o.fetchesOf id = (generation, token) ::ₘ o'.fetchesOf id →
      o'.heardBy id = (if (watcher.state.received generation ending).2 then
        o.heardBy id ++ [ending.bind (Response.decode watcher.decoder)] else o.heardBy id) →
      Turned id turn completed o o' watcher (settling watcher generation ending subscription)
  | startedCanceled : completed = none → turn = .move (.watch id) →
      watcher.state.started = false → watcher.state.canceled = true →
      o'.fetchesOf id = o.fetchesOf id → o'.heardBy id = o.heardBy id ++ [.error .canceled] →
      Turned id turn completed o o' watcher (starting watcher)
  | canceled : completed = none → turn = .move (.cancelWatcher id) →
      watcher.state.canceled = false → o'.fetchesOf id = o.fetchesOf id →
      o'.heardBy id =
        (o.heardBy id ++ if watcher.state.active.isSome then [.error .canceled] else []) →
      Turned id turn completed o o' watcher (canceling watcher)

namespace Turned

variable {turn : Turn} {completed : Option (Nat × Ending Json)} {watcher' : Watcher α}

theorem decoder (h : Turned id turn completed o o' watcher watcher') :
    watcher'.decoder = watcher.decoder := by
  cases h with
  | aside _ _ hcontinues => exact hcontinues.decoder
  | _ => rfl

theorem started (h : Turned id turn completed o o' watcher watcher')
    (hstarted : watcher.state.started = true) : watcher'.state.started = true := by
  cases h with
  | aside _ _ hcontinues => exact hcontinues.started hstarted
  | @ended generation _ ending subscription _ _ _ =>
    obtain ⟨_, _, hsettled, -⟩ := settling_eq watcher generation ending subscription
    rw [hsettled]
    exact hstarted
  | startedCanceled => rfl
  | canceled => exact hstarted

/-- A fetch is out that was out before, or it is newer than all before it. -/
theorem newer (h : Turned id turn completed o o' watcher watcher') :
    watcher.state.generation ≤ watcher'.state.generation ∧
      ∀ f ∈ o'.fetchesOf id, f ∈ o.fetchesOf id ∨ watcher.state.generation < f.1 := by
  cases h with
  | aside _ _ hcontinues => exact ⟨hcontinues.generation, hcontinues.newer⟩
  | @ended generation _ ending subscription _ hfetches _ =>
    obtain ⟨_, _, hsettled, -⟩ := settling_eq watcher generation ending subscription
    rw [hsettled, hfetches]
    exact ⟨Nat.le_refl _, fun f hf => .inl (Multiset.mem_cons_of_mem hf)⟩
  | startedCanceled _ _ _ _ hfetches _ =>
    rw [hfetches]
    exact ⟨Nat.le_refl _, fun f hf => .inl hf⟩
  | canceled _ _ _ hfetches _ =>
    rw [hfetches]
    exact ⟨Nat.le_refl _, fun f hf => .inl hf⟩

/-- A canceled watcher begins no fetch, and it hears nothing but that it is canceled, as it is
started. -/
theorem rests (h : Turned id turn completed o o' watcher watcher')
    (hcanceled : watcher.state.canceled = true) :
    watcher'.state.canceled = true ∧ watcher'.state.generation = watcher.state.generation ∧
      o'.fetchesOf id ≤ o.fetchesOf id ∧
      (o'.heardBy id = o.heardBy id ∨ watcher.state.started = false ∧
        o'.heardBy id = o.heardBy id ++ [.error .canceled]) := by
  cases h with
  | aside _ _ hcontinues =>
    obtain ⟨hgeneration, hfetches⟩ := hcontinues.rests hcanceled
    exact ⟨hcontinues.canceled.trans hcanceled, hgeneration, hfetches.le, .inl hcontinues.heard⟩
  | @ended generation _ ending subscription _ hfetches hheard =>
    have hdropped : watcher.state.received generation ending = (watcher.state, false) := by
      rw [WatcherState.received.eq_def, hcanceled]
      rfl
    rw [hdropped] at hheard
    refine ⟨?_, ?_, ?_, .inl hheard⟩
    · rw [settling, hdropped]
      exact hcanceled
    · rw [settling, hdropped]
    · rw [hfetches]
      exact Multiset.le_cons_self _ _
  | startedCanceled _ _ hstarted _ hfetches hheard =>
    exact ⟨hcanceled, rfl, hfetches.le, .inr ⟨hstarted, hheard⟩⟩
  | canceled _ _ hlive _ _ =>
    rw [hlive] at hcanceled
    cases hcanceled

theorem canceled_of_cancelWatcher
    (h : Turned id (.move (.cancelWatcher id)) none o o' watcher watcher') :
    watcher'.state.canceled = true := by
  cases h with
  | aside _ hcanceled hcontinues => exact hcontinues.canceled.trans (hcanceled rfl)
  | ended _ hcompleted => cases hcompleted
  | startedCanceled _ hturn => cases hturn
  | canceled => rfl

/-- What a watcher compares with stays until a result is delivered. -/
theorem lastDelivered (h : Turned id turn completed o o' watcher watcher')
    (hheard : ∀ generation ending, completed = some (generation, ending) →
      o'.heardBy id = o.heardBy id) : watcher'.state.lastDelivered = watcher.state.lastDelivered := by
  cases h with
  | aside _ _ hcontinues => exact hcontinues.lastDelivered
  | @ended generation _ ending subscription hcompleted _ htold =>
    have hsame := htold.symm.trans (hheard _ _ hcompleted)
    have hnot : (watcher.state.received generation ending).2 = false := by
      by_contra hdelivers
      rw [Bool.not_eq_false] at hdelivers
      rw [if_pos hdelivers] at hsame
      exact List.cons_ne_nil _ _ (List.append_right_eq_self.mp hsame)
    exact WatcherState.lastDelivered_received hnot
  | _ => rfl

/-- What is delivered is the result of the newest fetch of a watcher that is not canceled. -/
theorem of_delivers {generation : Nat} {ending : Ending Json} {heard : Ending α}
    (h : Turned id turn (some (generation, ending)) o o' watcher watcher')
    (hheard : o'.heardBy id = o.heardBy id ++ [heard]) :
    watcher.state.canceled = false ∧ watcher.state.generation = generation ∧
      ending.isCanceled = false ∧ (watcher.state.received generation ending).2 = true ∧
      ∃ token subscription, o.fetchesOf id = (generation, token) ::ₘ o'.fetchesOf id ∧
        watcher' = settling watcher generation ending subscription := by
  cases h with
  | aside hcompleted => cases hcompleted
  | startedCanceled hcompleted => cases hcompleted
  | canceled hcompleted => cases hcompleted
  | @ended _ token _ subscription hcompleted hfetches htold =>
    cases hcompleted
    have hdelivers : (watcher.state.received generation ending).2 = true := by
      by_contra hnot
      rw [if_neg hnot, hheard] at htold
      exact List.cons_ne_nil _ _ (List.append_right_eq_self.mp htold)
    rcases watcher.state.received_cases generation ending with
      ⟨hsame, -⟩ | ⟨hlive, hnewest, _, -, hending⟩
    · rw [hsame] at hdelivers
      cases hdelivers
    · exact ⟨hlive, hnewest, hending hdelivers, hdelivers, token, subscription, hfetches, rfl⟩

/-- A cancellation is told by itself while the newest fetch is out, or as the canceled watcher is
started. -/
theorem of_tellsCanceled {heard : Ending α} (h : Turned id turn none o o' watcher watcher')
    (hheard : o'.heardBy id = o.heardBy id ++ [heard]) :
    (turn = .move (.cancelWatcher id) ∧ watcher.state.canceled = false ∧
        watcher.state.active.isSome = true) ∨
      (turn = .move (.watch id) ∧ watcher.state.canceled = true ∧
        watcher.state.started = false) := by
  cases h with
  | aside _ _ hcontinues =>
    exact absurd (List.append_right_eq_self.mp (hheard.symm.trans hcontinues.heard))
      (List.cons_ne_nil _ _)
  | ended _ hcompleted => cases hcompleted
  | startedCanceled _ hturn hstarted hcanceled => exact .inr ⟨hturn, hcanceled, hstarted⟩
  | canceled _ hturn hlive _ htold =>
    refine .inl ⟨hturn, hlive, ?_⟩
    by_contra hidle
    rw [if_neg hidle, hheard] at htold
    exact List.cons_ne_nil _ _ (List.append_cancel_left htold)

end Turned

end Outline

namespace Session

variable {σ τ α : Type} {id : WatcherId} {watcher : Watcher α}

theorem outline_fetchEnded {s : Session σ τ α} (h : Assoc.get? s.watchers id = some watcher)
    (generation : Nat) (ending : Ending Json) :
    ∃ subscription, (s.finishFetch id generation ending).outline =
      s.outline.fetchEnded id watcher generation ending subscription := by
  obtain ⟨hdelivers, subscription, hstate⟩ :=
    watcher.state.accept_eq_received id s.store generation ending
  refine ⟨subscription, ?_⟩
  rw [outline_finishFetch h, hdelivers, hstate]
  rfl

/-- The end of a fetch of a watcher. -/
theorem turned_finishFetch {o : Outline α} {s : Session σ τ α} {task : Task} {generation : Nat}
    {token : Token} (ho : Outline.Orderly o id watcher) (htaken : o = s.outline.add task)
    (hfetch : task.fetchOf? id = some (generation, token)) (turn : Turn) (ending : Ending Json) :
    ∃ watcher', Outline.Orderly (s.finishFetch id generation ending).outline id watcher' ∧
      Outline.Turned id turn (some (generation, ending)) o
        (s.finishFetch id generation ending).outline watcher watcher' := by
  subst htaken
  obtain ⟨subscription, houtline⟩ := outline_fetchEnded ho.get generation ending
  have hfetches : (s.outline.add task).fetchesOf id = (generation, token) ::ₘ
      (s.outline.fetchEnded id watcher generation ending subscription).fetchesOf id := by
    rw [Outline.fetchesOf_fetchEnded]
    exact Outline.fetchesOf_add hfetch _
  rw [houtline]
  refine ⟨_, ho.fetchEnded hfetch ending subscription, .ended subscription rfl hfetches ?_⟩
  rw [Outline.heardBy_fetchEnded]
  rfl

theorem turned_aside {turn : Turn} {o o' : Outline α} (ho : Outline.Orderly o id watcher)
    (h : Outline.Aside (.watcher id) o o') (hturn : turn ≠ .move (.cancelWatcher id)) :
    ∃ watcher', Outline.Orderly o' id watcher' ∧
      Outline.Turned id turn none o o' watcher watcher' := by
  obtain ⟨watcher', horderly, hcontinues⟩ := ho.aside h
  exact ⟨watcher', horderly, .aside rfl (fun heq => absurd heq hturn) hcontinues⟩

/-- Starting a watcher. -/
theorem turned_watch {s : Session σ τ α} (ho : s.outline.Orderly id watcher) :
    ∃ watcher', (((s.watch id).toOption.getD s).outline).Orderly id watcher' ∧
      Outline.Turned id (.move (.watch id)) none s.outline ((s.watch id).toOption.getD s).outline
        watcher watcher' := by
  have hget : Assoc.get? s.watchers id = some watcher := ho.get
  cases hstarted : watcher.state.started with
  | true =>
    rw [watch_of_started hget hstarted]
    exact turned_aside ho .refl (by simp)
  | false =>
    cases hcanceled : watcher.state.canceled with
    | true =>
      obtain ⟨after, hafter, houtline⟩ := watch_of_canceled hget hstarted hcanceled
      rw [hafter]
      change ∃ watcher', after.outline.Orderly id watcher' ∧ _
      refine ⟨_, houtline ▸ ho.start_canceled hstarted hcanceled, ?_⟩
      refine .startedCanceled rfl rfl hstarted hcanceled ?_ ?_
      · change after.outline.fetchesOf id = _
        rw [houtline]
        rfl
      · change after.outline.heardBy id = _
        rw [houtline]
        exact Outline.heardBy_tell _ _ _
    | false =>
      obtain ⟨after, hafter, hfetches⟩ := watch_of_live hget hstarted hcanceled
      rw [hafter]
      obtain ⟨watcher', horderly, hcontinues⟩ :=
        (ho.start hstarted).aside (hfetches.aside (.watcher id))
      refine ⟨watcher', horderly, .aside rfl (fun heq => by cases heq) ?_⟩
      exact { hcontinues with started := fun _ => hcontinues.started rfl }

/-- Cancelling a watcher. -/
theorem turned_cancelWatcher {s : Session σ τ α} (ho : s.outline.Orderly id watcher) :
    ∃ watcher', (s.cancelWatcher id).outline.Orderly id watcher' ∧
      Outline.Turned id (.move (.cancelWatcher id)) none s.outline (s.cancelWatcher id).outline
        watcher watcher' := by
  have hget : Assoc.get? s.watchers id = some watcher := ho.get
  cases hcanceled : watcher.state.canceled with
  | true =>
    rw [cancelWatcher_of_canceled hget hcanceled]
    exact ⟨watcher, ho, .aside rfl (fun _ => hcanceled) (.refl _ _ _)⟩
  | false =>
    have houtline : (s.cancelWatcher id).outline = s.outline.watcherCanceled id watcher :=
      outline_cancelWatcher hget hcanceled
    rw [houtline]
    exact ⟨_, ho.cancel hcanceled, .canceled rfl rfl hcanceled
      (Outline.fetchesOf_watcherCanceled _ _ _) (Outline.heardBy_watcherCanceled _ _ _)⟩

variable [Storage σ]

/-- A fetch of a watcher ends only with a turn that is about the watcher. -/
theorem completed?_eq_none (client : Client τ) {s : Session σ τ α} {m : Move}
    (h : s.concerned? m ≠ some (.watcher id)) : s.completed? client id (.move m) = none := by
  cases m with
  | advance index =>
    cases hready : s.ready[index]? with
    | none => rw [completed?, hready]; rfl
    | some task =>
      rw [concerned?, hready, Option.bind_some, Task.owner?] at h
      rw [completed?, hready, Option.bind_some]
      split
      · next execution ending hpoll =>
        rw [execution?_of_poll hpoll, Option.bind_some] at h
        rw [Option.map_eq_none_iff]
        by_contra hfetch
        obtain ⟨fetch, hfetch⟩ := Option.ne_none_iff_exists'.mp hfetch
        exact h (execution.owner?_of_fetchOf? hfetch)
      · rfl
  | _ => rfl

/-- A task of the watcher is run: its fetch waits, or ends. -/
theorem turned_advance (client : Client τ) {s : Session σ τ α} (ho : s.outline.Orderly id watcher)
    {index : Nat} {task : Task} (hready : s.ready[index]? = some task)
    (howner : task.owner? = some (.watcher id)) :
    ∃ watcher', (s.move client (.advance index)).outline.Orderly id watcher' ∧
      Outline.Turned id (.move (.advance index)) (s.completed? client id (.move (.advance index)))
        s.outline (s.move client (.advance index)).outline watcher watcher' := by
  obtain ⟨generation, options, token, hexecution, hfetch, hbegins⟩ :=
    Task.exists_watch_of_owner? howner
  obtain ⟨progress, after, hpoll, houtline, hwaits⟩ :=
    (s.taking index).outline_poll client hexecution hbegins
  have htaken : s.outline = after.outline.add task := by
    rw [outline_taking hready hexecution, houtline]
  rw [move_advance client hready, runTask, completed?, hready, Option.bind_some, hpoll]
  cases progress with
  | ended ending =>
    have hown : Execution.fetchOf? id ⟨.watch id generation, options, token⟩ =
        some (generation, token) := if_pos rfl
    dsimp only
    rw [hown]
    exact turned_finishFetch ho htaken hfetch _ ending
  | waits inFlight =>
    have hresume : (Task.resume inFlight).fetchOf? id = some (generation, token) := by
      rw [Task.fetchOf?, Task.execution?, hwaits inFlight rfl]
      exact if_pos rfl
    have hsame : (after.outline.add (.resume inFlight)).fetchesOf id = s.outline.fetchesOf id := by
      rw [Outline.fetchesOf_add hresume, htaken, Outline.fetchesOf_add hfetch]
    dsimp only
    rw [conclude, outline_wait]
    refine ⟨watcher, ?_, .aside rfl (fun heq => by cases heq) (.of_eq hsame ?_ watcher)⟩
    · rw [htaken] at ho hsame
      exact ho.of_eq rfl hsame rfl fun _ hn => hn
    · rw [htaken]
      rfl

/-- Whatever a turn is, a watcher stays orderly. -/
theorem turned_turn (client : Client τ) {s : Session σ τ α} (ho : s.outline.Orderly id watcher)
    (turn : Turn) : ∃ watcher', (s.turn client turn).outline.Orderly id watcher' ∧
      Outline.Turned id turn (s.completed? client id turn) s.outline (s.turn client turn).outline
        watcher watcher' := by
  cases turn with
  | notify changed => exact turned_aside ho ((s.fetches_notify changed).aside _) (by simp)
  | complete index ending =>
    cases hready : s.ready[index]? with
    | none =>
      rw [turn, completed?, hready]
      exact turned_aside ho .refl (by simp)
    | some task =>
      cases hexecution : task.execution? with
      | none =>
        rw [turn, completed?, hready, Option.bind_some, Option.bind_some, hexecution, Task.fetchOf?,
          hexecution]
        exact turned_aside ho .refl (by simp)
      | some execution =>
        have htaken := outline_taking hready hexecution
        rw [turn, completed?, hready, Option.bind_some, Option.bind_some, hexecution]
        by_cases howner : task.owner? = some (.watcher id)
        · obtain ⟨generation, options, token, hwatch, hfetch, -⟩ :=
            Task.exists_watch_of_owner? howner
          cases hexecution.symm.trans hwatch
          rw [hfetch]
          exact turned_finishFetch ho htaken hfetch _ ending
        · have hnone : task.fetchOf? id = none := by
            by_contra hsome
            obtain ⟨fetch, hfetch⟩ := Option.ne_none_iff_exists'.mp hsome
            exact howner (task.owner?_of_fetchOf? hfetch)
          have hpurpose : execution.purpose.owner? ≠ some (.watcher id) := by
            rwa [Task.owner?, hexecution, Option.bind_some] at howner
          rw [hnone]
          refine turned_aside ho ?_ (by simp)
          rw [htaken]
          exact (Outline.Leaves.remove _ howner).aside.trans
            (((s.taking index).changes_finish execution ending).aside hpurpose)
  | move m =>
    by_cases hconcerned : s.concerned? m = some (.watcher id)
    · cases m with
      | advance index =>
        obtain ⟨task, hready, howner⟩ := Option.bind_eq_some_iff.mp hconcerned
        exact turned_advance client ho hready howner
      | watch other =>
        cases hconcerned
        exact turned_watch ho
      | cancelWatcher other =>
        cases hconcerned
        exact turned_cancelWatcher ho
      | _ => cases hconcerned
    · rw [completed?_eq_none client hconcerned]
      refine turned_aside ho (aside_move client hconcerned) ?_
      rintro heq
      cases heq
      exact hconcerned rfl

end Session

end GraphClient
