import GraphClient.Proofs.Session.Canceled

/-!
# The execution of a call

A call has at most one execution that has begun, and that ends once. `Single` counts them: what has
begun and has not ended, and what was told, are one together once the call is started, and none
before. An execution to be awaited that was not polled yet has not begun; it is only misused when it
is polled after another has begun.

A move that is not about the call leaves it alone. A poll of its execution takes the task into hand
(`InHand`), and then the execution waits again or is told.
-/

namespace GraphClient

/-- The outcome of a call that an event tells. -/
def Event.outcomeOf? {α : Type} (id : CallId) : Event α → Option (Ending α)
  | .executed call ending => if call = id then some ending else none
  | .delivered call ending => if call = id then some ending else none
  | _ => none

theorem Event.owner?_of_outcomeOf? {α : Type} {id : CallId} {event : Event α} {ending : Ending α}
    (h : event.outcomeOf? id = some ending) : event.owner? = some (.call id) := by
  cases event with
  | executed call told =>
    rw [outcomeOf?] at h
    split at h
    · next hid => rw [hid]; rfl
    · cases h
  | delivered call told =>
    rw [outcomeOf?] at h
    split at h
    · next hid => rw [hid]; rfl
    · cases h
  | _ => cases h

/-- A later state of a call. -/
structure Call.Precedes {α : Type} (call call' : Call α) : Prop where
  token : call'.token = call.token
  decoder : call'.decoder = call.decoder
  executed : call.executed = true → call'.executed = true

theorem Call.Precedes.refl {α : Type} (call : Call α) : call.Precedes call := ⟨rfl, rfl, fun h => h⟩

/-- A call with a token of this number may start the task when it succeeds: it fetches an operation
under a descendant of the token, or has a watcher fetch. -/
def Task.FollowsUp (n : Nat) (task : Task) : Prop :=
  ∃ execution, task = .start execution ∧
    (execution.purpose = .refetch ∧ n ∈ execution.token.ancestors ∨
      ∃ id generation, execution.purpose = .watch id generation)

/-- What a poll of the execution of a call leaves to be run: the execution itself, if it waits, and
what follows up its success. -/
def Progress.Yields (n : Nat) (progress : Progress) (task : Task) : Prop :=
  (∃ inFlight, progress = .waits inFlight ∧ task = .resume inFlight) ∨
    (∃ response, progress = .ended (.ok response)) ∧ task.FollowsUp n

namespace Outline

variable {α : Type} {id : CallId} {o o' : Outline α} {call : Call α}

/-- The outcomes of a call that were told. -/
def outcomesOf (o : Outline α) (id : CallId) : List (Ending α) :=
  o.told.filterMap (Event.outcomeOf? id)

/-- The executions of a call that have begun and not ended. -/
def begunOf (o : Outline α) (id : CallId) : Multiset Task :=
  (o.tasksOf (.call id)).filter fun task => task.begins? = none

theorem outcomesOf_eq (o : Outline α) (id : CallId) :
    o.outcomesOf id = (o.toldTo (.call id)).filterMap (Event.outcomeOf? id) := by
  have howned : (fun event : Event α => if event.owner? = some (.call id) then event.outcomeOf? id
      else none) = Event.outcomeOf? id := by
    funext event
    cases houtcome : event.outcomeOf? id with
    | none => exact ite_self none
    | some ending => exact if_pos (event.owner?_of_outcomeOf? houtcome)
  rw [toldTo, List.filterMap_filter, outcomesOf]
  simp only [decide_eq_true_eq, howned]

theorem Leaves.outcomesOf (h : Leaves (.call id) o o') : o'.outcomesOf id = o.outcomesOf id := by
  rw [outcomesOf_eq, h.told, outcomesOf_eq]

theorem Leaves.begunOf (h : Leaves (.call id) o o') : o'.begunOf id = o.begunOf id := by
  rw [Outline.begunOf, h.tasks, Outline.begunOf]

theorem outcomesOf_tell (o : Outline α) {event : Event α} {ending : Ending α}
    (h : event.outcomeOf? id = some ending) :
    (o.tell event).outcomesOf id = o.outcomesOf id ++ [ending] := by
  rw [outcomesOf, tell, List.filterMap_append]
  exact congrArg (o.outcomesOf id ++ ·) (List.filterMap_cons_some h)

theorem outcomesOf_tell_of_none (o : Outline α) {event : Event α}
    (h : event.outcomeOf? id = none) : (o.tell event).outcomesOf id = o.outcomesOf id := by
  rw [outcomesOf, tell, List.filterMap_append, List.filterMap_cons_none h]
  exact List.append_nil _

theorem tasksOf_add {owner : Owner} {task : Task} (h : task.owner? = some owner) (o : Outline α) :
    (o.add task).tasksOf owner = task ::ₘ o.tasksOf owner :=
  Multiset.filter_cons_of_pos _ h

theorem begunOf_add {task : Task} (h : task.owner? = some (.call id)) (hbegins : task.begins? = none)
    (o : Outline α) : (o.add task).begunOf id = task ::ₘ o.begunOf id := by
  rw [begunOf, tasksOf_add h]
  exact Multiset.filter_cons_of_pos _ hbegins

theorem begunOf_add_of_begins {task : Task} (h : task.owner? = some (.call id))
    (hbegins : task.begins? ≠ none) (o : Outline α) : (o.add task).begunOf id = o.begunOf id := by
  rw [begunOf, tasksOf_add h]
  exact Multiset.filter_cons_of_neg _ hbegins

/-- The executions of a call that have not ended carry this token. -/
def Carries (o : Outline α) (id : CallId) (token : Token) : Prop :=
  ∀ task ∈ o.tasksOf (.call id), ∀ execution, task.execution? = some execution →
    execution.token = token

theorem Carries.add {task : Task} {execution : Execution} {token : Token} (h : o.Carries id token)
    (howner : task.owner? = some (.call id)) (hexecution : task.execution? = some execution)
    (htoken : execution.token = token) : (o.add task).Carries id token := by
  intro other hother found hfound
  rw [tasksOf_add howner] at hother
  rcases Multiset.mem_cons.mp hother with rfl | hother
  · cases hexecution.symm.trans hfound
    exact htoken
  · exact h other hother found hfound

theorem Carries.of_add {task : Task} {token : Token} (h : (o.add task).Carries id token)
    (howner : task.owner? = some (.call id)) : o.Carries id token := by
  refine fun other hother => h other ?_
  rw [tasksOf_add howner]
  exact Multiset.mem_cons_of_mem hother

theorem Carries.of_add_self {task : Task} {execution : Execution} {token : Token}
    (h : (o.add task).Carries id token) (howner : task.owner? = some (.call id))
    (hexecution : task.execution? = some execution) : execution.token = token := by
  refine h task ?_ execution hexecution
  rw [tasksOf_add howner]
  exact Multiset.mem_cons_self _ _

/-- The executions of a call that were asked for carry its token, and at most one has begun. -/
structure Single (o : Outline α) (id : CallId) (call : Call α) : Prop where
  get : Assoc.get? o.calls id = some call
  tokens : o.Carries id call.token
  once : (o.begunOf id).card + (o.outcomesOf id).length = if call.executed then 1 else 0

/-- The one execution of a call is polled just now. -/
structure InHand (o : Outline α) (id : CallId) (call : Call α) : Prop where
  get : Assoc.get? o.calls id = some call
  tokens : o.Carries id call.token
  executed : call.executed = true
  begun : o.begunOf id = 0
  untold : o.outcomesOf id = []

namespace Single

theorem of_leaves (ho : Single o id call) (h : Leaves (.call id) o o') : Single o' id call where
  get := (h.call id rfl).trans ho.get
  tokens := by
    rw [Carries, h.tasks]
    exact ho.tokens
  once := by
    rw [h.begunOf, h.outcomesOf]
    exact ho.once

theorem add_of_begins {task : Task} {execution : Execution} (ho : Single o id call)
    (howner : task.owner? = some (.call id)) (hbegins : task.begins? ≠ none)
    (hexecution : task.execution? = some execution) (htoken : execution.token = call.token) :
    Single (o.add task) id call where
  get := ho.get
  tokens := ho.tokens.add howner hexecution htoken
  once := by
    rw [begunOf_add_of_begins howner hbegins]
    exact ho.once

theorem of_add_of_begins {task : Task} (ho : Single (o.add task) id call)
    (howner : task.owner? = some (.call id)) (hbegins : task.begins? ≠ none) :
    Single o id call where
  get := ho.get
  tokens := ho.tokens.of_add howner
  once := by
    have honce := ho.once
    rwa [begunOf_add_of_begins howner hbegins] at honce

theorem tell_of_none {event : Event α} (ho : Single o id call) (h : event.outcomeOf? id = none) :
    Single (o.tell event) id call where
  get := ho.get
  tokens := ho.tokens
  once := by
    rw [outcomesOf_tell_of_none o h]
    exact ho.once

/-- A call that is not started has nothing that has begun, so it may be started. -/
theorem inHand_start (ho : Single o id call) (hexecuted : call.executed = false) :
    InHand (o.setCall id { call with executed := true }) id { call with executed := true } := by
  have honce := ho.once
  rw [hexecuted] at honce
  exact ⟨Assoc.get?_insert_self _ _ _, ho.tokens, rfl,
    Multiset.card_eq_zero.mp (Nat.add_eq_zero_iff.mp honce).1,
    List.length_eq_zero_iff.mp (Nat.add_eq_zero_iff.mp honce).2⟩

/-- The execution that has begun is the only one, and nothing was told. -/
theorem inHand_of_add {task : Task} (ho : Single (o.add task) id call)
    (howner : task.owner? = some (.call id)) (hbegins : task.begins? = none) :
    InHand o id call := by
  have honce := ho.once
  rw [begunOf_add howner hbegins, Multiset.card_cons] at honce
  have hexecuted : call.executed = true := by
    by_contra hnot
    rw [if_neg hnot] at honce
    omega
  rw [if_pos hexecuted] at honce
  have hnone : (o.begunOf id).card = 0 ∧ (o.outcomesOf id).length = 0 := by
    have hsame : (o.add task).outcomesOf id = o.outcomesOf id := rfl
    rw [hsame] at honce
    omega
  exact ⟨ho.get, ho.tokens.of_add howner, hexecuted, Multiset.card_eq_zero.mp hnone.1,
    List.length_eq_zero_iff.mp hnone.2⟩

end Single

/-- The execution in hand is put back to be polled again. -/
theorem InHand.add {task : Task} {execution : Execution} (h : InHand o id call)
    (howner : task.owner? = some (.call id)) (hbegins : task.begins? = none)
    (hexecution : task.execution? = some execution) (htoken : execution.token = call.token) :
    Single (o.add task) id call where
  get := h.get
  tokens := h.tokens.add howner hexecution htoken
  once := by
    have hsame : (o.add task).outcomesOf id = o.outcomesOf id := rfl
    rw [begunOf_add howner hbegins, h.begun, hsame, h.untold, h.executed]
    rfl

/-- What is new in the calls when a call completes. -/
theorem Completes.own {options : CallOptions} {ending : Ending Json}
    (h : o.Completes id call options ending o') :
    ∃ refetchToken, Assoc.get? o'.calls id =
        some { call with completed := true, refetchToken := refetchToken } ∧
      o'.tasksOf (.call id) = o.tasksOf (.call id) ∧ o'.toldTo (.call id) = o.toldTo (.call id) := by
  cases h with
  | alone => exact ⟨call.refetchToken, Assoc.get?_insert_self _ _ _, rfl, rfl⟩
  | @refetching fetched _ hfetches =>
    have hbegun := (Leaves.refetching (.call id) (o.setCall id { call with completed := true })
      call.token options.refetchOperations).trans (hfetches.aside _).leaves_call
    exact ⟨_, Assoc.get?_insert_self _ _ _, hbegun.tasks, hbegun.told⟩

variable {n : Nat} {task : Task}

theorem followsUp_of_mem_refetching {parent : Token} {operations : List Operation}
    (h : task ∈ (o.refetching parent operations).tasks) :
    task ∈ o.tasks ∨ task.FollowsUp parent.number := by
  rw [refetching] at h
  have hparent : parent.number ∈ (o.tokens.child parent).1.ancestors := List.mem_cons_self
  generalize (o.tokens.child parent).1 = token at h hparent
  generalize hissued : { o with tokens := (o.tokens.child parent).2 } = issued at h
  have htasks : issued.tasks = o.tasks := by rw [← hissued]
  rw [← htasks]
  clear hissued htasks
  induction operations generalizing issued with
  | nil => exact .inl h
  | cons operation operations ih =>
    rcases ih _ h with hadded | hnew
    · rcases Multiset.mem_cons.mp hadded with rfl | hold
      · exact .inr ⟨_, rfl, .inl ⟨rfl, hparent⟩⟩
      · exact .inl hold
    · exact .inr hnew

theorem Fetches.followsUp (h : Fetches o o') (hmem : task ∈ o'.tasks) :
    task ∈ o.tasks ∨ task.FollowsUp n := by
  induction h with
  | refl => exact .inl hmem
  | @tail o' other watcher control _ _ _ _ ih =>
    have hadded : (o'.fetchBegun other watcher control).tasks = .start
        ⟨.watch other (watcher.state.generation + 1), { watcher.options with control := control },
          o'.tokens.fresh.1⟩ ::ₘ o'.tasks := by
      rw [fetchBegun]
      cases watcher.state.active <;> rfl
    rw [hadded] at hmem
    rcases Multiset.mem_cons.mp hmem with rfl | hold
    · exact .inr ⟨_, rfl, .inr ⟨_, _, rfl⟩⟩
    · exact ih hold

/-- A call that completes starts nothing but what follows up its success. -/
theorem Completes.yields {options : CallOptions} {ending : Ending Json}
    (h : o.Completes id call options ending o') (hmem : task ∈ o'.tasks) :
    task ∈ o.tasks ∨ (Progress.ended ending).Yields call.token.number task := by
  cases h with
  | alone => exact .inl hmem
  | refetching hrefetches hfetches =>
    rw [Bool.and_eq_true] at hrefetches
    cases ending with
    | error failure => cases hrefetches.1
    | ok response =>
      exact ((hfetches.followsUp hmem).elim followsUp_of_mem_refetching .inr).imp_right
        fun hfollows => .inr ⟨⟨response, rfl⟩, hfollows⟩

/-- The execution in hand ends, and its outcome is told. -/
theorem InHand.ended {options : CallOptions} {ending : Ending Json} {event : Event α}
    {told : Ending α} (h : InHand o id call) (hcompletes : o.Completes id call options ending o')
    (hevent : event.outcomeOf? id = some told) :
    ∃ call', Single (o'.tell event) id call' ∧ call.Precedes call' ∧ call'.executed = true ∧
      (o'.tell event).outcomesOf id = [told] := by
  obtain ⟨refetchToken, hget, htasks, htold⟩ := hcompletes.own
  have huntold : o'.outcomesOf id = [] := by
    rw [outcomesOf_eq, htold, ← outcomesOf_eq, h.untold]
  have hbegun : o'.begunOf id = 0 := by
    rw [begunOf, htasks, ← begunOf, h.begun]
  have houtcome : (o'.tell event).outcomesOf id = [told] := by
    rw [outcomesOf_tell o' hevent, huntold]
    rfl
  refine ⟨_, ⟨hget, ?_, ?_⟩, ⟨rfl, rfl, fun hexecuted => hexecuted⟩, h.executed, houtcome⟩
  · change o'.Carries id call.token
    rw [Carries, htasks]
    exact h.tokens
  · change (o'.begunOf id).card + _ = _
    rw [hbegun, houtcome, h.executed]
    rfl

end Outline

namespace Session

variable {σ τ α : Type} {id : CallId} {call : Call α}

/-- The outcomes of a call that were told, in order. -/
def outcomesOf (s : Session σ τ α) (id : CallId) : List (Ending α) :=
  s.events.filterMap (Event.outcomeOf? id)

theorem outcomesOf_outline (s : Session σ τ α) (id : CallId) :
    s.outline.outcomesOf id = s.outcomesOf id := by
  have htold : (fun event : Event α => if event.isTold = true then event.outcomeOf? id else none) =
      Event.outcomeOf? id := by
    funext event
    cases event with
    | crossed crossing => exact if_neg Bool.false_ne_true
    | _ => exact if_pos rfl
  change (s.events.filter Event.isTold).filterMap _ = _
  rw [List.filterMap_filter, htold, outcomesOf]

/-- What becomes of the execution of a call that is in hand. -/
structure Concludes (o o' : Outline α) (id : CallId) (call call' : Call α) (progress : Progress) :
    Prop where
  single : o'.Single id call'
  precedes : call.Precedes call'
  executed : call'.executed = true
  told : ∀ ending, progress = .ended ending →
    o'.outcomesOf id = [ending.bind (Response.decode call.decoder)]
  untold : ∀ inFlight, progress = .waits inFlight → o'.outcomesOf id = []
  yields : ∀ task ∈ o'.tasks, task ∈ o.tasks ∨ progress.Yields call.token.number task

theorem concludes {s : Session σ τ α} (h : s.outline.InHand id call) {execution : Execution}
    (hpurpose : execution.purpose.owner? = some (.call id)) (htoken : execution.token = call.token)
    {progress : Progress}
    (hwaits : ∀ inFlight, progress = .waits inFlight → inFlight.execution = execution) :
    ∃ call', Concludes s.outline (s.conclude execution progress).outline id call call' progress := by
  have hget : Assoc.get? s.calls id = some call := h.get
  cases progress with
  | waits inFlight =>
    have hexecution : (Task.resume inFlight).execution? = some execution :=
      congrArg some (hwaits inFlight rfl)
    have howner : (Task.resume inFlight).owner? = some (.call id) := by
      rw [Task.owner?, hexecution, Option.bind_some, hpurpose]
    rw [conclude, outline_wait]
    refine ⟨call, ?_⟩
    exact {
      single := h.add howner rfl hexecution htoken
      precedes := .refl call
      executed := h.executed
      told := fun _ hprogress => by cases hprogress
      untold := fun _ _ => h.untold
      yields := fun task hmem => by
        change task ∈ .resume inFlight ::ₘ s.outline.tasks at hmem
        rcases Multiset.mem_cons.mp hmem with rfl | hold
        · exact .inr (.inl ⟨inFlight, rfl, rfl⟩)
        · exact .inl hold }
  | ended ending =>
    obtain ⟨purpose, options, token⟩ := execution
    have hended : ∀ (completed : Outline α) (event : Event α),
        s.outline.Completes id call options ending completed →
        event.outcomeOf? id = some (ending.bind (Response.decode call.decoder)) →
        ∃ call', Concludes s.outline (completed.tell event) id call call' (.ended ending) := by
      intro completed event hcompletes hevent
      obtain ⟨call', hsingle, hprecedes, hexecuted, htold⟩ := h.ended hcompletes hevent
      refine ⟨call', ?_⟩
      exact {
        single := hsingle
        precedes := hprecedes
        executed := hexecuted
        told := fun _ hprogress => by cases hprogress; exact htold
        untold := fun _ hprogress => by cases hprogress
        yields := fun task hmem => hcompletes.yields hmem }
    cases purpose with
    | execute other =>
      cases hpurpose
      obtain ⟨completed, hcompletes, houtline⟩ := outline_finishExecute hget options ending
      change ∃ call', Concludes s.outline (s.finishExecute id options ending).outline _ _ _ _
      rw [houtline]
      exact hended completed _ hcompletes (if_pos rfl)
    | enqueue other =>
      cases hpurpose
      obtain ⟨completed, hcompletes, houtline⟩ := outline_finishEnqueue hget options ending
      change ∃ call', Concludes s.outline (s.finishEnqueue id options ending).outline _ _ _ _
      rw [houtline]
      exact hended completed _ hcompletes (if_pos rfl)
    | refetch => cases hpurpose
    | watch watcher generation => cases hpurpose

variable [Storage σ]

/-- The execution of a call ends with a move, and its outcome is told. -/
structure Ends (client : Client τ) (decoder : Json → Option α) (id : CallId) (s : Session σ τ α)
    (m : Move) (execution : Execution) (ending : Ending Json) : Prop where
  polled : s.polled? client m = some (execution, .ended ending)
  own : execution.purpose.owner? = some (.call id)
  told : (s.move client m).outcomesOf id =
    s.outcomesOf id ++ [ending.bind (Response.decode decoder)]

/-- What a move is for a call. -/
structure Moved (client : Client τ) (s : Session σ τ α) (m : Move) (id : CallId)
    (call call' : Call α) : Prop where
  single : (s.move client m).outline.Single id call'
  precedes : call.Precedes call'
  told : (s.move client m).outcomesOf id = s.outcomesOf id ∨
    ∃ execution ending, s.Ends client call.decoder id m execution ending
  ended : ∀ execution ending, s.polled? client m = some (execution, .ended ending) →
    execution.purpose.owner? = some (.call id) →
      s.Ends client call.decoder id m execution ending
  executed : (m = .enqueue id ∨ ∃ execution progress,
    s.polled? client m = some (execution, progress) ∧
      execution.purpose.owner? = some (.call id)) → call'.executed = true
  yields : ∀ execution progress, s.polled? client m = some (execution, progress) →
    execution.purpose.owner? = some (.call id) → ∀ task ∈ (s.move client m).executions,
      task ∈ s.executions ∨ progress.Yields call.token.number task

theorem concerned?_of_polled? {client : Client τ} {s : Session σ τ α} {m : Move}
    {execution : Execution} {progress : Progress}
    (h : s.polled? client m = some (execution, progress)) :
    s.concerned? m = execution.purpose.owner? := by
  cases m with
  | advance index =>
    obtain ⟨task, hready, hpoll⟩ := Option.bind_eq_some_iff.mp h
    rw [concerned?, hready, Option.bind_some, Task.owner?, execution?_of_poll hpoll,
      Option.bind_some]
  | _ => cases h

/-- What is polled for a call carries its token. -/
theorem token_of_polled? {client : Client τ} {s : Session σ τ α} (ho : s.outline.Single id call)
    {m : Move} {execution : Execution} {progress : Progress}
    (h : s.polled? client m = some (execution, progress))
    (hown : execution.purpose.owner? = some (.call id)) : execution.token = call.token := by
  cases m with
  | advance index =>
    obtain ⟨task, hready, hpoll⟩ := Option.bind_eq_some_iff.mp h
    have hexecution := execution?_of_poll hpoll
    have howner : task.owner? = some (.call id) := by
      rw [Task.owner?, hexecution, Option.bind_some, hown]
    have htokens := ho.tokens
    rw [outline_taking hready hexecution] at htokens
    exact htokens.of_add_self howner hexecution
  | _ => cases h

/-- A move by which nothing is told and nothing begins. -/
theorem moved_of_silent {client : Client τ} {s : Session σ τ α} {m : Move}
    (hsingle : (s.move client m).outline.Single id call)
    (htold : (s.move client m).outcomesOf id = s.outcomesOf id)
    (hexecuted : m = .enqueue id → call.executed = true)
    (hpolled : ∀ execution progress, s.polled? client m = some (execution, progress) →
      execution.purpose.owner? ≠ some (.call id)) : Moved client s m id call call where
  single := hsingle
  precedes := .refl call
  told := .inl htold
  ended execution ending hpoll hown := absurd hown (hpolled execution _ hpoll)
  executed := by
    rintro (henqueue | ⟨execution, progress, hpoll, hown⟩)
    · exact hexecuted henqueue
    · exact absurd hown (hpolled execution progress hpoll)
  yields execution progress hpoll hown := absurd hown (hpolled execution progress hpoll)

theorem moved_of_concludes {client : Client τ} {s after : Session σ τ α} {index : Nat}
    {task : Task} {execution : Execution} {progress : Progress} {started call' : Call α}
    (hready : s.ready[index]? = some task)
    (hpoll : (s.taking index).poll client task = (some (execution, progress), after))
    (hown : execution.purpose.owner? = some (.call id)) (huntold : s.outcomesOf id = [])
    (htasks : ∀ task ∈ after.outline.tasks, task ∈ s.outline.tasks)
    (hstarted : call.Precedes started)
    (h : Concludes after.outline (after.conclude execution progress).outline id started call'
      progress) : Moved client s (.advance index) id call call' := by
  have hmove : s.move client (.advance index) = after.conclude execution progress := by
    rw [move_advance client hready, runTask, hpoll]
  have hpolled : s.polled? client (.advance index) = some (execution, progress) := by
    rw [polled?, hready, Option.bind_some, hpoll]
  have htold := outcomesOf_outline (after.conclude execution progress) id
  rw [← hmove] at h htold
  have hended : ∀ ending, progress = .ended ending →
      s.Ends client call.decoder id (.advance index) execution ending := by
    rintro ending rfl
    refine ⟨hpolled, hown, ?_⟩
    rw [huntold, ← htold, ← hstarted.decoder]
    exact h.told ending rfl
  constructor
  case single => exact h.single
  case precedes =>
    exact ⟨h.precedes.token.trans hstarted.token, h.precedes.decoder.trans hstarted.decoder,
      fun hexecuted => h.precedes.executed (hstarted.executed hexecuted)⟩
  case told =>
    cases progress with
    | waits inFlight =>
      rw [huntold, ← htold]
      exact .inl (h.untold inFlight rfl)
    | ended ending => exact .inr ⟨execution, ending, hended ending rfl⟩
  case ended =>
    intro other ending hother _
    cases hpolled.symm.trans hother
    exact hended ending rfl
  case executed => exact fun _ => h.executed
  case yields =>
    intro other reached hother _ task hmem
    cases hpolled.symm.trans hother
    rw [← hstarted.token]
    exact (h.yields task hmem).imp_left (htasks task)

/-- A poll takes the execution of a call into hand. -/
structure TakesInHand (client : Client τ) (s : Session σ τ α) (index : Nat) (task : Task)
    (id : CallId) (call started : Call α) (execution : Execution) (progress : Progress)
    (after : Session σ τ α) : Prop where
  poll : (s.taking index).poll client task = (some (execution, progress), after)
  own : execution.purpose.owner? = some (.call id)
  precedes : call.Precedes started
  inHand : after.outline.InHand id started
  tasks : after.outline.tasks = (s.taking index).outline.tasks
  told : after.outline.told = (s.taking index).outline.told

section Poll

variable {s : Session σ τ α} {index : Nat} {options : CallOptions} {token : Token}

/-- A second execution of a call only tells that the call is misused. -/
theorem poll_of_executed (client : Client τ) (hcall : Assoc.get? s.calls id = some call)
    (hexecuted : call.executed = true) (index : Nat) (options : CallOptions) (token : Token) :
    (s.taking index).poll client (.start ⟨.execute id, options, token⟩) =
      (none, (s.taking index).report [.misused id .alreadyExecuted]) := by
  have hcall : Assoc.get? (s.taking index).calls id = some call := hcall
  rw [poll, pollStart]
  dsimp only
  rw [startCall_of_executed hcall hexecuted]

theorem advance_of_executed (client : Client τ) (hcall : Assoc.get? s.calls id = some call)
    (hexecuted : call.executed = true)
    (hready : s.ready[index]? = some (.start ⟨.execute id, options, token⟩)) :
    s.move client (.advance index) = (s.taking index).report [.misused id .alreadyExecuted] ∧
      s.polled? client (.advance index) = none := by
  have hmisused := poll_of_executed client hcall hexecuted index options token
  constructor
  · rw [move_advance client hready, runTask, hmisused]
  · rw [polled?, hready, Option.bind_some, hmisused]

theorem moved_of_executed (client : Client τ) (ho : s.outline.Single id call)
    (hexecuted : call.executed = true)
    (hready : s.ready[index]? = some (.start ⟨.execute id, options, token⟩)) :
    Moved client s (.advance index) id call call := by
  obtain ⟨hmove, hpolled⟩ := advance_of_executed client ho.get hexecuted hready
  have hreport : ((s.taking index).report [.misused id .alreadyExecuted]).outline =
      (s.taking index).outline.tell (.misused id .alreadyExecuted) := outline_report_told _ rfl
  rw [outline_taking hready rfl] at ho
  have hrest := ho.of_add_of_begins rfl (Option.some_ne_none id)
  refine moved_of_silent ?_ ?_ (fun henqueue => by cases henqueue) fun _ _ h => ?_
  · rw [hmove, hreport]
    exact hrest.tell_of_none rfl
  · rw [hmove, ← outcomesOf_outline, hreport, Outline.outcomesOf_tell_of_none _ rfl,
      outcomesOf_outline]
    rfl
  · rw [hpolled] at h
    cases h

/-- The first poll of an execution starts the call. -/
theorem takesInHand_of_not_executed (client : Client τ) (ho : s.outline.Single id call)
    (hexecuted : call.executed = false)
    (hready : s.ready[index]? = some (.start ⟨.execute id, options, token⟩)) :
    ∃ started execution progress after, TakesInHand client s index
      (.start ⟨.execute id, options, token⟩) id call started execution progress after := by
  have hcall : Assoc.get? (s.taking index).calls id = some call := ho.get
  let execution : Execution := ⟨.execute id, options, token⟩
  let started := ((s.taking index).setCall id { call with executed := true }).track
  have houtline : (started.dispatch client execution).2.outline =
      (s.taking index).outline.setCall id { call with executed := true } :=
    started.outline_dispatch client execution
  have hpoll : (s.taking index).poll client (.start execution) =
      (some (execution, (started.dispatch client execution).1),
        (started.dispatch client execution).2) := by
    rw [poll, pollStart]
    dsimp only [execution]
    rw [startCall_of_not_executed hcall hexecuted]
    rfl
  have hrest := ho
  rw [outline_taking hready rfl] at hrest
  have hinHand := (hrest.of_add_of_begins rfl (Option.some_ne_none id)).inHand_start hexecuted
  rw [← houtline] at hinHand
  refine ⟨{ call with executed := true }, execution, _, _,
    ⟨hpoll, rfl, ⟨rfl, rfl, fun _ => rfl⟩, hinHand, ?_, ?_⟩⟩
  · rw [houtline]
    rfl
  · rw [houtline]
    rfl

/-- A later poll, or the first one of a call with a callback. -/
theorem takesInHand_of_begun (client : Client τ) (ho : s.outline.Single id call) {task : Task}
    (hready : s.ready[index]? = some task) (howner : task.owner? = some (.call id))
    (hbegins : task.begins? = none) :
    ∃ execution progress after,
      TakesInHand client s index task id call call execution progress after := by
  obtain ⟨execution, hexecution, hown⟩ := Option.bind_eq_some_iff.mp howner
  obtain ⟨progress, after, hpoll, houtline, -⟩ :=
    (s.taking index).outline_poll client hexecution hbegins
  have htaken := ho
  rw [outline_taking hready hexecution] at htaken
  have hinHand := htaken.inHand_of_add howner hbegins
  rw [← houtline] at hinHand
  exact ⟨execution, progress, after, hpoll, hown, .refl call, hinHand,
    congrArg Outline.tasks houtline, congrArg Outline.told houtline⟩

/-- A poll of a task of a call takes the execution into hand, unless it is one too many. -/
theorem misused_or_takesInHand (client : Client τ) (ho : s.outline.Single id call) {task : Task}
    (hready : s.ready[index]? = some task) (howner : task.owner? = some (.call id)) :
    (call.executed = true ∧ ∃ options token, task = .start ⟨.execute id, options, token⟩) ∨
      ∃ started execution progress after,
        TakesInHand client s index task id call started execution progress after := by
  cases hbegins : task.begins? with
  | none => exact .inr ⟨call, takesInHand_of_begun client ho hready howner hbegins⟩
  | some other =>
    obtain ⟨options, token, rfl⟩ := Task.begins?_eq_some hbegins
    cases howner
    cases hexecuted : call.executed with
    | true => exact .inl ⟨rfl, options, token, rfl⟩
    | false => exact .inr (takesInHand_of_not_executed client ho hexecuted hready)

end Poll

/-- A poll that takes the execution into hand goes on with it, or ends it. -/
theorem moved_of_takesInHand (client : Client τ) {s after : Session σ τ α}
    (ho : s.outline.Single id call) {index : Nat} {task : Task} {execution : Execution}
    {progress : Progress} {started : Call α} (hready : s.ready[index]? = some task)
    (h : TakesInHand client s index task id call started execution progress after) :
    ∃ call', Moved client s (.advance index) id call call' := by
  have hpolled : s.polled? client (.advance index) = some (execution, progress) := by
    rw [polled?, hready, Option.bind_some, h.poll]
  have htoken := (token_of_polled? ho hpolled h.own).trans h.precedes.token.symm
  have huntold : s.outcomesOf id = [] := by
    have huntold := h.inHand.untold
    rwa [Outline.outcomesOf, h.told, ← Outline.outcomesOf, outcomesOf_outline] at huntold
  have hleft : ∀ task ∈ after.outline.tasks, task ∈ s.outline.tasks := by
    have hexecution := execution?_of_poll (congrArg Prod.fst h.poll)
    rw [h.tasks, outline_taking hready hexecution]
    exact fun task hmem => Multiset.mem_cons_of_mem hmem
  have hwaits : ∀ inFlight, progress = .waits inFlight → inFlight.execution = execution := by
    rintro inFlight rfl
    exact execution_of_polled?_waits client hpolled
  obtain ⟨call', hconcludes⟩ := concludes h.inHand h.own htoken hwaits
  exact ⟨call', moved_of_concludes hready h.poll h.own huntold hleft h.precedes hconcludes⟩

/-- A poll of a task of the call. -/
theorem moved_advance (client : Client τ) {s : Session σ τ α} (ho : s.outline.Single id call)
    {index : Nat} {task : Task} (hready : s.ready[index]? = some task)
    (howner : task.owner? = some (.call id)) :
    ∃ call', Moved client s (.advance index) id call call' := by
  rcases misused_or_takesInHand client ho hready howner with
    ⟨hexecuted, options, token, rfl⟩ | ⟨started, execution, progress, after, htakes⟩
  · exact ⟨call, moved_of_executed client ho hexecuted hready⟩
  · exact moved_of_takesInHand client ho hready htakes

/-- Whatever the move is, a call has at most one execution that has begun, and that ends once. -/
theorem moved_move (client : Client τ) {s : Session σ τ α} (ho : s.outline.Single id call)
    (m : Move) : ∃ call', Moved client s m id call call' := by
  have hget : Assoc.get? s.calls id = some call := ho.get
  by_cases hconcerned : s.concerned? m = some (.call id)
  · cases m with
    | advance index =>
      obtain ⟨task, hready, howner⟩ := Option.bind_eq_some_iff.mp hconcerned
      exact moved_advance client ho hready howner
    | execute other =>
      cases hconcerned
      have houtline : (s.move client (.execute id)).outline =
          s.outline.add (.start ⟨.execute id, call.options, call.token⟩) := outline_execute hget
      refine ⟨call, moved_of_silent ?_ ?_ (fun henqueue => by cases henqueue) fun _ _ h => by cases h⟩
      · rw [houtline]
        exact ho.add_of_begins rfl (Option.some_ne_none id) rfl rfl
      · rw [← outcomesOf_outline, houtline, ← outcomesOf_outline]
        rfl
    | enqueue other =>
      cases hconcerned
      cases hexecuted : call.executed with
      | true =>
        have hmove : s.move client (.enqueue id) = s := by
          change (s.enqueue id).toOption.getD s = s
          rw [enqueue_of_executed hget hexecuted]
          rfl
        refine ⟨call, moved_of_silent ?_ ?_ (fun _ => hexecuted) fun _ _ h => by cases h⟩
        · rwa [hmove]
        · rw [hmove]
      | false =>
        have houtline : (s.move client (.enqueue id)).outline =
            (s.outline.setCall id { call with executed := true }).add
              (.start ⟨.enqueue id, call.options, call.token⟩) := by
          change ((s.enqueue id).toOption.getD s).outline = _
          rw [enqueue_of_not_executed hget hexecuted]
          exact outline_spawn_start _ _
        have htold : (s.move client (.enqueue id)).outcomesOf id = s.outcomesOf id := by
          rw [← outcomesOf_outline, houtline, ← outcomesOf_outline]
          rfl
        refine ⟨{ call with executed := true }, ?_⟩
        exact {
          single := by
            rw [houtline]
            exact (ho.inHand_start hexecuted).add rfl rfl rfl rfl
          precedes := ⟨rfl, rfl, fun _ => rfl⟩
          told := .inl htold
          ended := fun _ _ hpolled => by cases hpolled
          executed := fun _ => rfl
          yields := fun _ _ hpolled => by cases hpolled }
    | _ => cases hconcerned
  · have hleaves := (aside_move client hconcerned).leaves_call
    refine ⟨call, moved_of_silent (ho.of_leaves hleaves) ?_ ?_ fun _ _ hpolled hown => ?_⟩
    · rw [← outcomesOf_outline, hleaves.outcomesOf, outcomesOf_outline]
    · rintro rfl
      exact absurd rfl hconcerned
    · exact hconcerned ((concerned?_of_polled? hpolled).trans hown)

end Session

end GraphClient
