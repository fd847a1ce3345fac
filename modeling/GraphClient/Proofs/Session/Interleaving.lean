import GraphClient.Proofs.Session.Waking

/-!
# Tasks that interleave

A session that is run by one thread ends an execution as soon as it has come through the pipeline. With
several threads other tasks may run in between: the execution has its response, but nobody has been
told yet. `Interleaved` is a session with these executions, and `step` makes one move of one task or
of the user. A run makes any move at any time; the scheduler of the library is the run that always
takes the first ready task and ends it at once (`exists_run_of_step?`).

For the store and its subscriptions a move is one of three things, and `step_cases` says which: it
leaves them as they are, a watcher accepts a response, or a watcher is canceled.
-/

namespace GraphClient

/-- A session, and the executions that have come through the pipeline but were not ended. -/
structure Interleaved (σ τ α : Type) where
  session : Session σ τ α
  arrived : List (Execution × Ending Json) := []

/-- A move of one of the tasks, or of the user. -/
inductive Move where
  /-- Runs a ready task: a notification, or an execution as far as it comes. -/
  | advance (index : Nat)
  /-- Ends an execution that has come through; the response of a fetch is given to its watcher. -/
  | handOver (index : Nat)
  | write (operation : Operation) (data : Json.Object)
  | openGate (gate : String)
  | execute (call : CallId)
  | enqueue (call : CallId)
  | cancelCall (call : CallId)
  | watch (watcher : WatcherId)
  | refetch (watcher : WatcherId)
  | cancelWatcher (watcher : WatcherId)
  | rest

namespace Interleaved

variable {σ τ α : Type} [Storage σ]

/-- The session without a task that is run now. -/
def taking (s : Interleaved σ τ α) (index : Nat) : Session σ τ α :=
  { s.session with ready := s.session.ready.eraseIdx index }

omit [Storage σ] in
/-- Keeps a polled execution until it is ended, or lets it wait. -/
def settle (arrived : List (Execution × Ending Json)) : Session.Polled σ τ α → Interleaved σ τ α
  | (none, session) => ⟨session, arrived⟩
  | (some (execution, .ended ending), session) => ⟨session, arrived ++ [(execution, ending)]⟩
  | (some (_, .waits inFlight), session) =>
    ⟨{ session with waiting := session.waiting ++ [inFlight] }, arrived⟩

/-- Makes a move. A move that is not possible changes nothing. -/
def step (client : Client τ) (s : Interleaved σ τ α) : Move → Interleaved σ τ α
  | .advance index =>
    match s.session.ready[index]? with
    | none => s
    | some task => settle s.arrived ((s.taking index).poll client task)
  | .handOver index =>
    match s.arrived[index]? with
    | none => s
    | some (execution, ending) => ⟨s.session.finish execution ending, s.arrived.eraseIdx index⟩
  | .write operation data => { s with session := (s.session.writeAndPublish operation data).2 }
  | .openGate gate => { s with session := s.session.openGate gate }
  | .execute call => { s with session := s.session.execute call }
  | .enqueue call => { s with session := (s.session.enqueue call).toOption.getD s.session }
  | .cancelCall call => { s with session := s.session.cancelCall call }
  | .watch watcher => { s with session := (s.session.watch watcher).toOption.getD s.session }
  | .refetch watcher => { s with session := s.session.refetch watcher }
  | .cancelWatcher watcher => { s with session := s.session.cancelWatcher watcher }
  | .rest => s

/-- The state after so many moves. -/
def run (client : Client τ) (s : Interleaved σ τ α) (moves : Nat → Move) : Nat → Interleaved σ τ α
  | 0 => s
  | time + 1 => (run client s moves time).step client (moves time)

/-- The response that a fetch obtains with a move. -/
def obtained? (client : Client τ) (s : Interleaved σ τ α) : Move → Option Answer
  | .advance index =>
    match (s.session.ready[index]?).bind fun task => ((s.taking index).poll client task).1 with
    | some (execution, .ended ending) => answer? execution ending
    | _ => none
  | _ => none

omit [Storage σ] in
/-- The response that a watcher accepts with a move. -/
def accepted? (s : Interleaved σ τ α) : Move → Option Answer
  | .handOver index => (s.arrived[index]?).bind fun a => s.session.accepted? a.1 a.2
  | _ => none

omit [Storage σ] in
/-- The changed field keys of the notification that is carried out with a move. -/
def notified? (s : Interleaved σ τ α) : Move → Option KeySet
  | .advance index =>
    match s.session.ready[index]? with
    | some (.notify changed) => some changed
    | _ => none
  | _ => none

theorem advance_eq (client : Client τ) {s : Interleaved σ τ α} {index : Nat} {task : Task}
    (h : s.session.ready[index]? = some task) :
    s.step client (.advance index) = settle s.arrived ((s.taking index).poll client task) := by
  rw [step, h]

theorem handOver_eq (client : Client τ) {s : Interleaved σ τ α} {index : Nat}
    {execution : Execution} {ending : Ending Json}
    (h : s.arrived[index]? = some (execution, ending)) :
    s.step client (.handOver index) =
      ⟨s.session.finish execution ending, s.arrived.eraseIdx index⟩ := by
  rw [step, h]

/-- A step of the scheduler is the first ready task, run and ended with nothing in between. -/
theorem exists_run_of_step? (client : Client τ) {s s' : Session σ τ α}
    (h : s.step? client = some s') :
    ∃ moves count, run client ⟨s, []⟩ moves count = ⟨s', []⟩ := by
  rw [Session.step?] at h
  split at h
  · cases h
  · next task rest hready =>
    cases h
    have hfirst : s.ready[0]? = some task := by rw [hready, List.getElem?_cons_zero]
    have htaking : taking ⟨s, []⟩ 0 = { s with ready := rest } := by
      rw [taking, hready, List.eraseIdx_cons_zero]
    have hadvance := advance_eq client (s := ⟨s, []⟩) hfirst
    rw [htaking] at hadvance
    let moves : Nat → Move := fun time => if time = 0 then .advance 0 else .handOver 0
    rw [Session.runTask]
    cases hpoll : Session.poll client { s with ready := rest } task with
    | mk polled session =>
      rw [hpoll] at hadvance
      cases polled with
      | none => exact ⟨moves, 1, hadvance⟩
      | some result =>
        obtain ⟨execution, progress⟩ := result
        cases progress with
        | waits inFlight => exact ⟨moves, 1, hadvance⟩
        | ended ending =>
          refine ⟨moves, 2, ?_⟩
          change step client (step client ⟨s, []⟩ (.advance 0)) (.handOver 0) = _
          rw [hadvance]
          rfl

/-- Running a task, until it has come through, wakes watchers but changes nothing of what they
depend on. -/
theorem sameStanding_advance (client : Client τ) (s : Interleaved σ τ α) (index : Nat) :
    s.session.SameStanding (s.step client (.advance index)).session := by
  cases htask : s.session.ready[index]? with
  | none =>
    rw [step, htask]
    exact .refl s.session
  | some task =>
    rw [advance_eq client htask]
    have htaking : s.session.SameStanding (s.taking index) := .of_eq rfl rfl
    have hpoll := htaking.trans (Session.sameStanding_poll client (s.taking index) task)
    rw [settle.eq_def]
    split
    · next heq => rwa [heq] at hpoll
    · next heq => rwa [heq] at hpoll
    · next heq =>
      rw [heq] at hpoll
      exact hpoll.trans (.of_eq rfl rfl)

/-- What a move does to the store and its subscriptions. -/
theorem step_cases (client : Client τ) {s : Interleaved σ τ α} (hs : s.session.Consistent)
    (move : Move) :
    (s.accepted? move = none ∧ s.session.SameStanding (s.step client move).session) ∨
      (∃ answer id, s.accepted? move = some answer ∧
        s.session.Accepts (s.step client move).session answer.watcher answer.dependentKeys id) ∨
      ∃ watcher, move = .cancelWatcher watcher ∧
        s.session.Cancels (s.step client move).session watcher := by
  cases move with
  | advance index => exact .inl ⟨rfl, s.sameStanding_advance client index⟩
  | handOver index =>
    cases harrived : s.arrived[index]? with
    | none =>
      rw [step, accepted?, harrived]
      exact .inl ⟨rfl, .refl s.session⟩
    | some arrival =>
      obtain ⟨execution, ending⟩ := arrival
      rw [handOver_eq client harrived, accepted?, harrived, Option.bind_some]
      cases haccepted : s.session.accepted? execution ending with
      | none => exact .inl ⟨rfl, Session.sameStanding_of_accepted?_eq_none haccepted⟩
      | some answer =>
        obtain ⟨id, haccepts⟩ := Session.accepts_of_accepted?_eq_some hs haccepted
        exact .inr (.inl ⟨answer, id, rfl, haccepts⟩)
  | write operation data =>
    exact .inl ⟨rfl, s.session.sameStanding_writeAndPublish operation data⟩
  | openGate gate => exact .inl ⟨rfl, .of_eq rfl rfl⟩
  | execute call => exact .inl ⟨rfl, s.session.sameStanding_execute call⟩
  | enqueue call =>
    refine .inl ⟨rfl, ?_⟩
    rw [step]
    cases henqueue : s.session.enqueue call with
    | error misuse => exact .refl s.session
    | ok session => exact Session.sameStanding_enqueue henqueue
  | cancelCall call => exact .inl ⟨rfl, s.session.sameStanding_cancelCall call⟩
  | watch watcher =>
    refine .inl ⟨rfl, ?_⟩
    rw [step]
    cases hwatch : s.session.watch watcher with
    | error misuse => exact .refl s.session
    | ok session => exact Session.sameStanding_watch hwatch
  | refetch watcher => exact .inl ⟨rfl, s.session.sameStanding_refetch watcher⟩
  | cancelWatcher watcher =>
    rcases Session.cancelWatcher_cases hs watcher with hsame | hcancels
    · exact .inl ⟨rfl, hsame⟩
    · exact .inr (.inr ⟨watcher, rfl, hcancels⟩)
  | rest => exact .inl ⟨rfl, .refl s.session⟩

theorem consistent_step (client : Client τ) {s : Interleaved σ τ α} (hs : s.session.Consistent)
    (move : Move) : (s.step client move).session.Consistent := by
  rcases step_cases client hs move with
    ⟨-, hsame⟩ | ⟨answer, id, -, haccepts⟩ | ⟨watcher, -, hcancels⟩
  · exact hsame.consistent hs
  · exact haccepts.consistent hs
  · exact hcancels.consistent hs

/-- In every run subscriptions stay those of the watchers that have them. -/
theorem consistent_run (client : Client τ) {s : Interleaved σ τ α} (hs : s.session.Consistent)
    (moves : Nat → Move) (time : Nat) : (s.run client moves time).session.Consistent := by
  induction time with
  | zero => exact hs
  | succ time ih => exact consistent_step client ih (moves time)

/-- The watcher depends on these field keys, or was canceled. -/
def DependsUnlessCanceled (s : Interleaved σ τ α) (watcher : WatcherId) (keys : KeySet) : Prop :=
  s.session.DependsOn watcher keys ∨
    ∃ subscription, s.session.standing watcher = some (true, subscription)

/-- Until a watcher accepts another response, it depends on what it did. -/
theorem dependsUnlessCanceled_step (client : Client τ) {s : Interleaved σ τ α}
    (hs : s.session.Consistent) {move : Move} {watcher : WatcherId} {keys : KeySet}
    (hkeeps : ∀ answer, s.accepted? move = some answer → answer.watcher ≠ watcher)
    (h : s.DependsUnlessCanceled watcher keys) :
    (s.step client move).DependsUnlessCanceled watcher keys := by
  rcases step_cases client hs move with
    ⟨-, hsame⟩ | ⟨answer, id, haccepted, haccepts⟩ | ⟨canceled, -, hcancels⟩
  · rcases h with hdepends | ⟨subscription, hstanding⟩
    · exact .inl (hsame.dependsOn hdepends)
    · exact .inr ⟨subscription, (hsame.standing watcher).trans hstanding⟩
  · have hother : watcher ≠ answer.watcher := (hkeeps answer haccepted).symm
    rcases h with hdepends | ⟨subscription, hstanding⟩
    · exact .inl (haccepts.dependsOn_other hother hdepends)
    · exact .inr ⟨subscription, (haccepts.others watcher hother).trans hstanding⟩
  · by_cases hother : watcher = canceled
    · subst hother
      exact .inr ⟨none, hcancels.standing⟩
    · rcases h with hdepends | ⟨subscription, hstanding⟩
      · exact .inl (hcancels.dependsOn_other hother hdepends)
      · exact .inr ⟨subscription, (hcancels.others watcher hother).trans hstanding⟩

end Interleaved

end GraphClient
