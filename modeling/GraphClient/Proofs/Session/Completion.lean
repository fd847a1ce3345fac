import GraphClient.Proofs.Session.Lifecycle

/-!
# The end of a call

An execution of a call that has come through the pipeline ends in sections. It marks the call as
completed and looks whether it is canceled, which settles what it ends with; it starts what the call
fetches after a success; and it tells the outcome, for which the data is decoded only then. Between
two sections anybody else may move, and the call may be canceled at any of these points.

`Completing` is a session with the executions that are at their end. `act` goes on with one of them or
makes any other move, and an end with nothing in between is the one of the library
(`exists_run_of_move`). Whatever the acts are, a call has at most one execution that has begun and was
not told: it is still to be polled, or it is at its end (`standing_act`).
-/

namespace GraphClient

/-- The call that is told how an execution ends. -/
def Purpose.call? : Purpose → Option CallId
  | .execute id | .enqueue id => some id
  | _ => none

theorem Purpose.call?_eq_some_iff {purpose : Purpose} {id : CallId} :
    purpose.call? = some id ↔ purpose.owner? = some (.call id) := by
  cases purpose <;> simp [call?, owner?]

/-- What a call is told of how its execution ends. -/
def Purpose.outcome {α : Type} (purpose : Purpose) (id : CallId) (ending : Ending α) : Event α :=
  match purpose with
  | .execute _ => .executed id ending
  | _ => .delivered id ending

theorem Purpose.isTold_outcome {α : Type} (purpose : Purpose) (id : CallId) (ending : Ending α) :
    (purpose.outcome id ending).isTold = true := by
  cases purpose <;> rfl

theorem Purpose.owner?_outcome {α : Type} (purpose : Purpose) (id : CallId) (ending : Ending α) :
    (purpose.outcome id ending).owner? = some (.call id) := by
  cases purpose <;> rfl

theorem Purpose.outcomeOf?_outcome {α : Type} (purpose : Purpose) (id : CallId)
    (ending : Ending α) : (purpose.outcome id ending).outcomeOf? id = some ending := by
  cases purpose <;> exact if_pos rfl

/-- How far an execution of a call has come at its end. -/
inductive Stage where
  /-- It has come through the pipeline. -/
  | arrived
  /-- It has looked whether the call is canceled. -/
  | settled
  /-- It has started what the call fetches after a success. -/
  | followed
deriving DecidableEq

/-- An execution of a call that is at its end, and what it ends with. -/
structure Finishing where
  execution : Execution
  ending : Ending Json
  stage : Stage := .arrived

namespace Session

variable {σ τ α : Type}

def complete (s : Session σ τ α) (id : CallId) : Session σ τ α :=
  match Assoc.get? s.calls id with
  | none => s
  | some call => s.setCall id { call with completed := true }

/-- What an execution ends with: a canceled one as canceled, whatever has come through. -/
def endingOf (s : Session σ τ α) (f : Finishing) : Ending Json :=
  if s.tokens.isCanceled f.execution.token then .error .canceled else f.ending

/-- Starts what a call fetches after a success. -/
def followUp (s : Session σ τ α) (id : CallId) (f : Finishing) : Session σ τ α :=
  match Assoc.get? s.calls id with
  | none => s
  | some call =>
    if f.ending.isOk && f.execution.options.refetches then
      s.startRefetches id call f.execution.options
    else s

/-- Decodes the outcome of a call, and tells it. -/
def tellOutcome (s : Session σ τ α) (id : CallId) (f : Finishing) : Session σ τ α :=
  match Assoc.get? s.calls id with
  | none => s.release
  | some call =>
    s.release.report
      [f.execution.purpose.outcome id (f.ending.bind (Response.decode call.decoder))]

end Session

/-- A session, and the executions of calls that are at their end. -/
structure Completing (σ τ α : Type) where
  session : Session σ τ α
  finishing : Assoc CallId Finishing := []

namespace Completing

inductive Act where
  | move (move : Move)
  /-- Goes on with the end of a call. -/
  | goOn (call : CallId)

variable {σ τ α : Type}

/-- Carries out the next section of the end of a call. -/
def goOn (s : Completing σ τ α) (id : CallId) : Completing σ τ α :=
  match Assoc.get? s.finishing id with
  | none => s
  | some f =>
    match f.stage with
    | .arrived =>
      ⟨s.session.complete id,
        Assoc.insert s.finishing id { f with ending := s.session.endingOf f, stage := .settled }⟩
    | .settled =>
      ⟨s.session.followUp id f, Assoc.insert s.finishing id { f with stage := .followed }⟩
    | .followed => ⟨s.session.tellOutcome id f, Assoc.erase s.finishing id⟩

variable [Storage σ]

/-- The execution of a call that comes through the pipeline with a move, and the session then. -/
def arrival? (client : Client τ) (s : Session σ τ α) :
    Move → Option (CallId × Finishing × Session σ τ α)
  | .advance index =>
    (s.ready[index]?).bind fun task =>
      match (s.taking index).poll client task with
      | (some (execution, .ended ending), after) =>
        execution.purpose.call?.map fun id => (id, { execution := execution, ending := ending }, after)
      | _ => none
  | _ => none

/-- Makes a move, or goes on with the end of a call. -/
def act (client : Client τ) (s : Completing σ τ α) : Act → Completing σ τ α
  | .move m =>
    match arrival? client s.session m with
    | some (id, f, after) => ⟨after, Assoc.insert s.finishing id f⟩
    | none => { s with session := s.session.move client m }
  | .goOn id => s.goOn id

/-- The state after so many acts. -/
def run (client : Client τ) (s : Completing σ τ α) (acts : Nat → Act) : Nat → Completing σ τ α
  | 0 => s
  | time + 1 => (run client s acts time).act client (acts time)

variable {client : Client τ} {id : CallId} {call : Call α} {f : Finishing}

section Sections

variable {s : Session σ τ α}

omit [Storage σ] in
theorem complete_eq (h : Assoc.get? s.calls id = some call) :
    s.complete id = s.setCall id { call with completed := true } := by
  rw [Session.complete, h]

omit [Storage σ] in
theorem followUp_eq (h : Assoc.get? s.calls id = some call) :
    s.followUp id f =
      if f.ending.isOk && f.execution.options.refetches then
        s.startRefetches id call f.execution.options
      else s := by
  rw [Session.followUp, h]

omit [Storage σ] in
theorem tellOutcome_eq (h : Assoc.get? s.calls id = some call) :
    s.tellOutcome id f = s.release.report
      [f.execution.purpose.outcome id (f.ending.bind (Response.decode call.decoder))] := by
  rw [Session.tellOutcome, h]

omit [Storage σ] in
theorem get?_calls_startRefetches (s : Session σ τ α) (id : CallId) (call : Call α)
    (options : CallOptions) : ∃ token, Assoc.get? (s.startRefetches id call options).calls id =
      some { call with refetchToken := token } :=
  ⟨_, Assoc.get?_insert_self _ _ _⟩

omit [Storage σ] in
/-- The end of an execution is its sections with nothing in between, if what it ends with is
settled. -/
theorem finish_eq_sections (s : Session σ τ α) (h : f.execution.purpose.call? = some id) :
    s.finish f.execution f.ending = ((s.complete id).followUp id f).tellOutcome id f := by
  obtain ⟨⟨purpose, options, token⟩, ending, stage⟩ := f
  cases hget : Assoc.get? s.calls id with
  | none =>
    have hcomplete : s.complete id = s := by rw [Session.complete, hget]
    have hfollow : ∀ f, s.followUp id f = s := fun f => by rw [Session.followUp, hget]
    rw [hcomplete, hfollow, Session.tellOutcome, hget]
    cases purpose with
    | execute _ => cases h; simp only [Session.finish, Session.finishExecute, Session.completeCall, hget]
    | enqueue _ => cases h; simp only [Session.finish, Session.finishEnqueue, Session.completeCall, hget]
    | _ => cases h
  | some call =>
    let completed : Call α := { call with completed := true }
    have hcompleted : Assoc.get? (s.setCall id completed).calls id = some completed :=
      Assoc.get?_insert_self _ _ _
    have hfinish : s.finish ⟨purpose, options, token⟩ ending =
        (s.completeCall id options ending).2.release.report
          [purpose.outcome id (ending.bind (Response.decode call.decoder))] := by
      cases purpose with
      | execute _ =>
        cases h
        simp only [Session.finish, Session.finishExecute, Session.completeCall, hget]
        rfl
      | enqueue _ =>
        cases h
        simp only [Session.finish, Session.finishEnqueue, Session.completeCall, hget]
        rfl
      | _ => cases h
    rw [hfinish, complete_eq hget, followUp_eq hcompleted]
    simp only [Session.completeCall, hget]
    split
    · obtain ⟨refetchToken, hstarted⟩ :=
        get?_calls_startRefetches (s.setCall id completed) id completed options
      rw [tellOutcome_eq hstarted]
    · rw [tellOutcome_eq hcompleted]

end Sections

theorem arrival?_eq_some {s after : Session σ τ α} {m : Move}
    (h : arrival? client s m = some (id, f, after)) :
    ∃ index task, m = .advance index ∧ s.ready[index]? = some task ∧
      (s.taking index).poll client task = (some (f.execution, .ended f.ending), after) ∧
      f.execution.purpose.call? = some id ∧ f.stage = .arrived := by
  cases m with
  | advance index =>
    obtain ⟨task, hready, hpoll⟩ := Option.bind_eq_some_iff.mp h
    split at hpoll
    · next execution ending reached heq =>
      obtain ⟨other, hcall, hsame⟩ := Option.map_eq_some_iff.mp hpoll
      cases hsame
      exact ⟨index, task, rfl, hready, heq, hcall, rfl⟩
    · cases hpoll
  | _ => cases h

theorem polled?_of_arrival? {s after : Session σ τ α} {m : Move}
    (h : arrival? client s m = some (id, f, after)) :
    s.polled? client m = some (f.execution, .ended f.ending) := by
  obtain ⟨index, task, rfl, hready, hpoll, -, -⟩ := arrival?_eq_some h
  rw [Session.polled?, hready, Option.bind_some, hpoll]

theorem exists_arrival?_of_polled? {s : Session σ τ α} {m : Move} {execution : Execution}
    {ending : Ending Json} (h : s.polled? client m = some (execution, .ended ending))
    (hcall : execution.purpose.call? = some id) :
    ∃ f after, arrival? client s m = some (id, f, after) := by
  cases m with
  | advance index =>
    obtain ⟨task, hready, hpoll⟩ := Option.bind_eq_some_iff.mp h
    rcases hpolled : (s.taking index).poll client task with ⟨polled, after⟩
    rw [hpolled] at hpoll
    cases hpoll
    refine ⟨{ execution := execution, ending := ending }, after, ?_⟩
    rw [arrival?, hready, Option.bind_some, hpolled]
    dsimp only
    rw [hcall, Option.map_some]
  | _ => cases h

/-- A poll of an execution makes no tokens and cancels none. -/
theorem tokens_of_poll {s after : Session σ τ α} {task : Task} {execution : Execution}
    {progress : Progress} (h : s.poll client task = (some (execution, progress), after)) :
    after.tokens = s.tokens := by
  have hexecution := Session.execution?_of_poll (congrArg Prod.fst h)
  cases hbegins : task.begins? with
  | none =>
    obtain ⟨_, reached, hpoll, houtline, -⟩ := s.outline_poll client hexecution hbegins
    cases hpoll.symm.trans h
    exact congrArg Outline.tokens houtline
  | some id =>
    obtain ⟨options, token, rfl⟩ := Task.begins?_eq_some hbegins
    rw [Session.poll, Session.pollStart] at h
    dsimp only at h
    cases hstart : s.startCall id with
    | error misuse =>
      rw [hstart] at h
      cases h
    | ok started =>
      rw [hstart] at h
      cases h
      have hdispatch := started.outline_dispatch client ⟨.execute id, options, token⟩
      exact (congrArg Outline.tokens hdispatch).trans (Session.quiet_startCall hstart).tokens

/-- What comes through under a token that is canceled is that it is canceled. -/
theorem endingOf_of_arrival? {s after : Session σ τ α} {m : Move}
    (h : arrival? client s m = some (id, f, after)) : after.endingOf f = f.ending := by
  have hpolled := polled?_of_arrival? h
  obtain ⟨index, task, rfl, -, hpoll, -, -⟩ := arrival?_eq_some h
  rw [Session.endingOf]
  split
  · next hcanceled =>
    rw [tokens_of_poll hpoll] at hcanceled
    exact (Progress.ended.inj (Session.ended_of_polled? client hpolled hcanceled)).symm
  · rfl

/-- A move is a run in which the execution of a call that has come through ends at once. -/
theorem exists_run_of_move (client : Client τ) (s : Session σ τ α) (m : Move) :
    ∃ acts count, run client ⟨s, []⟩ acts count = ⟨s.move client m, []⟩ := by
  cases harrival : arrival? client s m with
  | none =>
    refine ⟨fun _ => .move m, 1, ?_⟩
    rw [run, run, act, harrival]
  | some arrived =>
    obtain ⟨id, f, after⟩ := arrived
    have hending := endingOf_of_arrival? harrival
    obtain ⟨index, task, rfl, hready, hpoll, hcall, hstage⟩ := arrival?_eq_some harrival
    have hmove : s.move client (.advance index) = after.finish f.execution f.ending := by
      rw [Session.move_advance client hready, Session.runTask, hpoll]
      rfl
    obtain ⟨execution, ending, stage⟩ := f
    cases hstage
    refine ⟨fun time => if time = 0 then .move (.advance index) else .goOn id, 4, ?_⟩
    rw [hmove, finish_eq_sections (f := ⟨execution, ending, .arrived⟩) after hcall]
    have harrived : act client ⟨s, []⟩ (.move (.advance index)) =
        ⟨after, [(id, ⟨execution, ending, .arrived⟩)]⟩ := by
      rw [act, harrival]
      rfl
    have hself : ∀ f : Finishing, Assoc.get? [(id, f)] id = some f := fun f => if_pos rfl
    have hinsert : ∀ f g : Finishing, Assoc.insert [(id, f)] id g = [(id, g)] := fun f g => if_pos rfl
    have herase : ∀ f : Finishing, Assoc.erase [(id, f)] id = [] := by
      intro f
      simp [Assoc.erase]
    change (((act client ⟨s, []⟩ (.move (.advance index))).goOn id).goOn id).goOn id = _
    rw [harrived]
    simp only [goOn, hself, hinsert, herase, hending]
    rfl

end Completing

namespace Outline.InHand

variable {α : Type} {id : CallId} {call : Call α} {o o' : Outline α}

theorem of_leaves (ho : InHand o id call) (h : Leaves (.call id) o o') : InHand o' id call where
  get := (h.call id rfl).trans ho.get
  tokens := by
    rw [Carries, h.tasks]
    exact ho.tokens
  executed := ho.executed
  begun := h.begunOf.trans ho.begun
  untold := h.outcomesOf.trans ho.untold

theorem add_of_begins {task : Task} {execution : Execution} (ho : InHand o id call)
    (howner : task.owner? = some (.call id)) (hbegins : task.begins? ≠ none)
    (hexecution : task.execution? = some execution) (htoken : execution.token = call.token) :
    InHand (o.add task) id call where
  get := ho.get
  tokens := ho.tokens.add howner hexecution htoken
  executed := ho.executed
  begun := (begunOf_add_of_begins howner hbegins o).trans ho.begun
  untold := ho.untold

theorem of_add_of_begins {task : Task} (ho : InHand (o.add task) id call)
    (howner : task.owner? = some (.call id)) (hbegins : task.begins? ≠ none) : InHand o id call where
  get := ho.get
  tokens := ho.tokens.of_add howner
  executed := ho.executed
  begun := (begunOf_add_of_begins howner hbegins o).symm.trans ho.begun
  untold := ho.untold

theorem begins_of_add {task : Task} (ho : InHand (o.add task) id call)
    (howner : task.owner? = some (.call id)) : task.begins? ≠ none := by
  intro hbegins
  have hbegun := ho.begun
  rw [begunOf_add howner hbegins] at hbegun
  exact Multiset.cons_ne_zero hbegun

theorem tell_of_none {event : Event α} (ho : InHand o id call) (h : event.outcomeOf? id = none) :
    InHand (o.tell event) id call :=
  { ho with untold := (outcomesOf_tell_of_none o h).trans ho.untold }

/-- The call is marked, or is given the token of its fetches. -/
theorem setCall {call' : Call α} (ho : InHand o id call) (htoken : call'.token = call.token)
    (hexecuted : call'.executed = call.executed) : InHand (o.setCall id call') id call' where
  get := Assoc.get?_insert_self _ _ _
  tokens := by
    rw [htoken]
    exact ho.tokens
  executed := hexecuted.trans ho.executed
  begun := ho.begun
  untold := ho.untold

/-- The one execution of the call ends. -/
theorem single_tell {event : Event α} {ending : Ending α} (ho : InHand o id call)
    (h : event.outcomeOf? id = some ending) :
    Single (o.tell event) id call ∧ (o.tell event).outcomesOf id = [ending] := by
  have houtcome : (o.tell event).outcomesOf id = [ending] := by
    rw [outcomesOf_tell o h, ho.untold]
    rfl
  refine ⟨⟨ho.get, ho.tokens, ?_⟩, houtcome⟩
  change (o.begunOf id).card + _ = _
  rw [ho.begun, houtcome, ho.executed]
  rfl

end Outline.InHand

namespace Session

variable {σ τ α : Type} [Storage σ] {s : Session σ τ α} {id : CallId} {call : Call α}

omit [Storage σ] in
/-- While the one execution of a call is in hand, only a further begin of it can be taken. -/
theorem exists_start_of_inHand (h : s.outline.InHand id call) {index : Nat} {task : Task}
    (hready : s.ready[index]? = some task) (howner : task.owner? = some (.call id)) :
    s.outline = (s.taking index).outline.add task ∧
      ∃ options token, task = .start ⟨.execute id, options, token⟩ := by
  obtain ⟨execution, hexecution, -⟩ := Option.bind_eq_some_iff.mp howner
  have htaken := outline_taking hready hexecution
  rw [htaken] at h
  obtain ⟨other, hother⟩ := Option.ne_none_iff_exists'.mp (h.begins_of_add howner)
  obtain ⟨options, token, rfl⟩ := Task.begins?_eq_some hother
  cases howner
  exact ⟨htaken, options, token, rfl⟩

/-- While the one execution of a call is in hand, no move takes another. -/
theorem inHand_move (client : Client τ) (h : s.outline.InHand id call) (m : Move) :
    (s.move client m).outline.InHand id call := by
  by_cases hconcerned : s.concerned? m = some (.call id)
  · cases m with
    | advance index =>
      obtain ⟨task, hready, howner⟩ := Option.bind_eq_some_iff.mp hconcerned
      obtain ⟨houtline, options, token, rfl⟩ := exists_start_of_inHand h hready howner
      have htaken : ((s.taking index).outline.add
          (.start ⟨.execute id, options, token⟩)).InHand id call := houtline ▸ h
      have hreport : ((s.taking index).report [.misused id .alreadyExecuted]).outline =
          (s.taking index).outline.tell (.misused id .alreadyExecuted) :=
        outline_report_told _ rfl
      rw [(advance_of_executed client h.get h.executed hready).1, hreport]
      exact (htaken.of_add_of_begins rfl (Option.some_ne_none id)).tell_of_none rfl
    | execute other =>
      cases hconcerned
      have houtline : (s.move client (.execute id)).outline =
          s.outline.add (.start ⟨.execute id, call.options, call.token⟩) := outline_execute h.get
      rw [houtline]
      exact h.add_of_begins rfl (Option.some_ne_none id) rfl rfl
    | enqueue other =>
      cases hconcerned
      have hmove : s.move client (.enqueue id) = s := by
        change (s.enqueue id).toOption.getD s = s
        rw [enqueue_of_executed h.get h.executed]
        rfl
      rwa [hmove]
    | _ => cases hconcerned
  · exact h.of_leaves (aside_move client hconcerned).leaves_call

/-- While the one execution of a call is in hand, no move polls another. -/
theorem owner?_ne_of_polled? (client : Client τ) (h : s.outline.InHand id call) {m : Move}
    {execution : Execution} {progress : Progress}
    (hpolled : s.polled? client m = some (execution, progress)) :
    execution.purpose.owner? ≠ some (.call id) := by
  intro hown
  cases m with
  | advance index =>
    obtain ⟨task, hready, hpoll⟩ := Option.bind_eq_some_iff.mp hpolled
    have hexecution := execution?_of_poll hpoll
    have howner : task.owner? = some (.call id) := by
      rw [Task.owner?, hexecution, Option.bind_some, hown]
    obtain ⟨-, options, token, rfl⟩ := exists_start_of_inHand h hready howner
    rw [(advance_of_executed client h.get h.executed hready).2] at hpolled
    cases hpolled
  | _ => cases hpolled

end Session

namespace Completing

variable {σ τ α : Type} {s s' : Completing σ τ α} {id : CallId} {call : Call α}

/-- At most one execution of a call has begun and was not told: it is still to be polled, or it is at
its end. -/
inductive Standing (s : Completing σ τ α) (id : CallId) (call : Call α) : Prop
  | single : Assoc.get? s.finishing id = none → s.session.outline.Single id call →
      Standing s id call
  | ending {f : Finishing} : Assoc.get? s.finishing id = some f →
      s.session.outline.InHand id call → Standing s id call

/-- What an act is for the end of a call. -/
inductive Turns (s s' : Completing σ τ α) (id : CallId) (decoder : Json → Option α) : Prop
  | rests : Assoc.get? s'.finishing id = Assoc.get? s.finishing id →
      s'.session.outcomesOf id = s.session.outcomesOf id → Turns s s' id decoder
  | arrives {f : Finishing} : Assoc.get? s.finishing id = none → s.session.outcomesOf id = [] →
      Assoc.get? s'.finishing id = some f → f.stage = .arrived →
      s'.session.outcomesOf id = [] → Turns s s' id decoder
  | settles {f : Finishing} (ending : Ending Json) : Assoc.get? s.finishing id = some f →
      f.stage = .arrived → s.session.outcomesOf id = [] →
      Assoc.get? s'.finishing id = some { f with ending := ending, stage := .settled } →
      s'.session.outcomesOf id = [] → Turns s s' id decoder
  | follows {f : Finishing} : Assoc.get? s.finishing id = some f → f.stage = .settled →
      s.session.outcomesOf id = [] →
      Assoc.get? s'.finishing id = some { f with stage := .followed } →
      s'.session.outcomesOf id = [] → Turns s s' id decoder
  | tells {f : Finishing} : Assoc.get? s.finishing id = some f → f.stage = .followed →
      s.session.outcomesOf id = [] → Assoc.get? s'.finishing id = none →
      s'.session.outcomesOf id = [f.ending.bind (Response.decode decoder)] →
      Turns s s' id decoder

theorem untold_of_inHand {s : Session σ τ α} (h : s.outline.InHand id call) :
    s.outcomesOf id = [] :=
  (Session.outcomesOf_outline s id).symm.trans h.untold

/-- What is done for others leaves a call where it stands. -/
theorem Standing.of_leaves (h : Standing s id call)
    (hleaves : s.session.outline.Leaves (.call id) s'.session.outline)
    (hfinishing : Assoc.get? s'.finishing id = Assoc.get? s.finishing id) :
    Standing s' id call ∧ Turns s s' id call.decoder := by
  have houtcomes : s'.session.outcomesOf id = s.session.outcomesOf id := by
    rw [← Session.outcomesOf_outline, hleaves.outcomesOf, Session.outcomesOf_outline]
  refine ⟨?_, .rests hfinishing houtcomes⟩
  cases h with
  | single hnone hsingle => exact .single (hfinishing.trans hnone) (hsingle.of_leaves hleaves)
  | ending hsome hinHand => exact .ending (hfinishing.trans hsome) (hinHand.of_leaves hleaves)

section GoOn

variable {f : Finishing}

/-- What the fetches after a success make of the outline: the call is given their token, and everything
else passes every call aside. -/
theorem exists_outline_startRefetches (s : Session σ τ α) (id : CallId) (call : Call α)
    (options : CallOptions) : ∃ fetched token,
      (∀ other, s.outline.Leaves (.call other) fetched) ∧
        (s.startRefetches id call options).outline =
          fetched.setCall id { call with refetchToken := token } := by
  obtain ⟨fetched, hfetches, houtline⟩ := s.outline_startRefetches id call options
  exact ⟨fetched, _, fun other => (Outline.Leaves.refetching _ _ _ _).trans
    (hfetches.aside _).leaves_call, houtline⟩

/-- The end of a call leaves every other call alone. -/
theorem leaves_goOn (s : Completing σ τ α) {other : CallId} (hne : id ≠ other) :
    s.session.outline.Leaves (.call id) (s.goOn other).session.outline := by
  have howner : Owner.call id ≠ .call other := fun h => hne (Owner.call.inj h)
  have hrefl := Outline.Leaves.refl (.call id) s.session.outline
  cases hfinishing : Assoc.get? s.finishing other with
  | none =>
    rw [goOn, hfinishing]
    exact hrefl
  | some f =>
    rw [goOn, hfinishing]
    cases hcall : Assoc.get? s.session.calls other with
    | none =>
      cases hstage : f.stage <;> simp only [hstage]
      · rw [Session.complete, hcall]
        exact hrefl
      · rw [Session.followUp, hcall]
        exact hrefl
      · rw [Session.tellOutcome, hcall]
        exact hrefl
    | some call =>
      cases hstage : f.stage <;> simp only [hstage]
      · rw [complete_eq hcall]
        exact .setCall _ howner _
      · rw [followUp_eq hcall]
        split
        · obtain ⟨fetched, token, hleaves, houtline⟩ :=
            exists_outline_startRefetches s.session other call f.execution.options
          rw [houtline]
          exact (hleaves id).trans (.setCall _ howner _)
        · exact hrefl
      · rw [tellOutcome_eq hcall, Session.outline_report_told _ (Purpose.isTold_outcome _ _ _)]
        refine .tell _ fun heq => howner ?_
        exact (Option.some.inj ((Purpose.owner?_outcome _ _ _).symm.trans heq)).symm

theorem get?_finishing_goOn (s : Completing σ τ α) {other : CallId} (hne : id ≠ other) :
    Assoc.get? (s.goOn other).finishing id = Assoc.get? s.finishing id := by
  rw [goOn]
  split
  · rfl
  · split
    · exact Assoc.get?_insert_of_ne _ _ hne
    · exact Assoc.get?_insert_of_ne _ _ hne
    · exact Assoc.get?_erase_of_ne _ hne

/-- The next section of the end of a call brings it one stage further. -/
theorem standing_goOn_self (h : s.session.outline.InHand id call)
    (hfinishing : Assoc.get? s.finishing id = some f) :
    ∃ call', Standing (s.goOn id) id call' ∧ call.Precedes call' ∧
      Turns s (s.goOn id) id call.decoder := by
  have hcall : Assoc.get? s.session.calls id = some call := h.get
  have huntold := untold_of_inHand h
  have hinsert : ∀ g : Finishing, Assoc.get? (Assoc.insert s.finishing id g) id = some g :=
    fun g => Assoc.get?_insert_self _ _ _
  rw [goOn, hfinishing]
  cases hstage : f.stage <;> simp only [hstage]
  case arrived =>
    rw [complete_eq hcall]
    have hcompleted : (s.session.setCall id { call with completed := true }).outline.InHand id
        { call with completed := true } := h.setCall rfl rfl
    exact ⟨_, .ending (hinsert _) hcompleted, ⟨rfl, rfl, fun hexecuted => hexecuted⟩,
      .settles _ hfinishing hstage huntold (hinsert _) (untold_of_inHand hcompleted)⟩
  case settled =>
    rw [followUp_eq hcall]
    split
    · obtain ⟨fetched, token, hleaves, houtline⟩ :=
        exists_outline_startRefetches s.session id call f.execution.options
      have hfollowed : (fetched.setCall id { call with refetchToken := token }).InHand id
          { call with refetchToken := token } := (h.of_leaves (hleaves id)).setCall rfl rfl
      rw [← houtline] at hfollowed
      exact ⟨_, .ending (hinsert _) hfollowed, ⟨rfl, rfl, fun hexecuted => hexecuted⟩,
        .follows hfinishing hstage huntold (hinsert _) (untold_of_inHand hfollowed)⟩
    · exact ⟨call, .ending (hinsert _) h, .refl call,
        .follows hfinishing hstage huntold (hinsert _) huntold⟩
  case followed =>
    have hnone : Assoc.get? (Assoc.erase s.finishing id) id = none := Assoc.get?_erase_self _ _
    obtain ⟨hsingle, htold⟩ := h.single_tell (f.execution.purpose.outcomeOf?_outcome id
      (f.ending.bind (Response.decode call.decoder)))
    rw [tellOutcome_eq hcall]
    have houtline := s.session.release.outline_report_told
      (f.execution.purpose.isTold_outcome id (f.ending.bind (Response.decode call.decoder)))
    refine ⟨call, .single hnone ?_, .refl call, .tells hfinishing hstage huntold hnone ?_⟩
    · rw [houtline]
      exact hsingle
    · rw [← Session.outcomesOf_outline, houtline]
      exact htold

end GoOn

variable [Storage σ]

/-- A move in which nothing comes through for a call leaves it where it stands in its end. -/
theorem standing_move (client : Client τ) (h : Standing s id call) {m : Move}
    (hnone : arrival? client s.session m = none) :
    ∃ call', Standing { s with session := s.session.move client m } id call' ∧
      call.Precedes call' ∧
      Turns s { s with session := s.session.move client m } id call.decoder := by
  cases h with
  | single hfinishing hsingle =>
    obtain ⟨call', hmoved⟩ := Session.moved_move client hsingle m
    refine ⟨call', .single hfinishing hmoved.single, hmoved.precedes, .rests rfl ?_⟩
    rcases hmoved.told with hsame | ⟨execution, ending, hends⟩
    · exact hsame
    · obtain ⟨f, after, harrival⟩ :=
        exists_arrival?_of_polled? hends.polled (Purpose.call?_eq_some_iff.mpr hends.own)
      cases hnone.symm.trans harrival
  | ending hfinishing hinHand =>
    have hmoved := Session.inHand_move client hinHand m
    exact ⟨call, .ending hfinishing hmoved, .refl call,
      .rests rfl ((untold_of_inHand hmoved).trans (untold_of_inHand hinHand).symm)⟩

/-- An execution that comes through is the one of its call, and leaves every other call alone. -/
theorem standing_arrival (client : Client τ) (h : Standing s id call) {m : Move} {other : CallId}
    {f : Finishing} {after : Session σ τ α}
    (harrival : arrival? client s.session m = some (other, f, after)) :
    ∃ call', Standing ⟨after, Assoc.insert s.finishing other f⟩ id call' ∧ call.Precedes call' ∧
      Turns s ⟨after, Assoc.insert s.finishing other f⟩ id call.decoder := by
  have hpolled := polled?_of_arrival? harrival
  obtain ⟨index, task, rfl, hready, hpoll, hcall, hstage⟩ := arrival?_eq_some harrival
  have hexecution := Session.execution?_of_poll (congrArg Prod.fst hpoll)
  have howner : task.owner? = some (.call other) := by
    rw [Task.owner?, hexecution, Option.bind_some, Purpose.call?_eq_some_iff.mp hcall]
  by_cases hother : other = id
  · subst hother
    cases h with
    | single hfinishing hsingle =>
      rcases Session.misused_or_takesInHand client hsingle hready howner with
        ⟨hexecuted, options, token, rfl⟩ | ⟨started, _, _, _, htakes⟩
      · have hmisused := Session.poll_of_executed client hsingle.get hexecuted index options
          token
        cases hmisused.symm.trans hpoll
      · cases htakes.poll.symm.trans hpoll
        have hinsert := Assoc.get?_insert_self s.finishing other f
        have huntold : s.session.outcomesOf other = [] := by
          have huntold := htakes.inHand.untold
          rwa [Outline.outcomesOf, htakes.told, ← Outline.outcomesOf, Session.outcomesOf_outline]
            at huntold
        exact ⟨started, .ending hinsert htakes.inHand, htakes.precedes,
          .arrives hfinishing huntold hinsert hstage (untold_of_inHand htakes.inHand)⟩
    | ending hfinishing hinHand =>
      exact absurd (Purpose.call?_eq_some_iff.mp hcall)
        (Session.owner?_ne_of_polled? client hinHand hpolled)
  · have hne : some (Owner.call other) ≠ some (.call id) := fun heq =>
      hother (Owner.call.inj (Option.some.inj heq))
    have htaking : s.session.outline.Leaves (.call id) (s.session.taking index).outline := by
      rw [Session.outline_taking hready hexecution]
      exact .remove _ (howner ▸ hne)
    have hchanges := (s.session.taking index).changes_poll client task
    rw [hpoll, howner] at hchanges
    have hleaves := htaking.trans (hchanges.aside hne).leaves_call
    have hfinishing := Assoc.get?_insert_of_ne s.finishing f (Ne.symm hother)
    obtain ⟨hstanding, hturns⟩ : Standing ⟨after, Assoc.insert s.finishing other f⟩ id call ∧ _ :=
      h.of_leaves hleaves hfinishing
    exact ⟨call, hstanding, .refl call, hturns⟩

/-- Whatever the act is, at most one execution of a call has begun and was not told. -/
theorem standing_act (client : Client τ) (h : Standing s id call) (a : Act) :
    ∃ call', Standing (s.act client a) id call' ∧ call.Precedes call' ∧
      Turns s (s.act client a) id call.decoder := by
  cases a with
  | move m =>
    rw [act]
    cases harrival : arrival? client s.session m with
    | none => exact standing_move client h harrival
    | some arrived =>
      obtain ⟨other, f, after⟩ := arrived
      exact standing_arrival client h harrival
  | goOn other =>
    rw [act]
    by_cases hother : id = other
    · subst hother
      cases h with
      | single hfinishing hsingle =>
        have hsame : s.goOn id = s := by rw [goOn, hfinishing]
        rw [hsame]
        exact ⟨call, .single hfinishing hsingle, .refl call, .rests rfl rfl⟩
      | ending hfinishing hinHand => exact standing_goOn_self hinHand hfinishing
    · obtain ⟨hstanding, hturns⟩ := h.of_leaves (s.leaves_goOn hother) (s.get?_finishing_goOn hother)
      exact ⟨call, hstanding, .refl call, hturns⟩

end Completing

end GraphClient
