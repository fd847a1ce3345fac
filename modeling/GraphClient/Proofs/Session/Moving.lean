import GraphClient.Proofs.Session.Interleaving
import GraphClient.Proofs.Session.Owners

/-!
# Moves of a session

`Session.move` makes one move of a task or of the user, where an execution that has come through the
pipeline is ended at once: every poll of an execution is one step. The moves may follow each other in
any order. A run of such moves is a run of the interleaving in which no other move comes between the
end of a poll and the end of its execution (`exists_run_of_move`).

A move changes something for the owner that it is about (`changes_move`), and passes every other aside
(`aside_move`).
-/

namespace GraphClient

/-- The call that a task starts when it is run, if it is the first poll of an awaited call. -/
def Task.begins? : Task → Option CallId
  | .start ⟨.execute id, _, _⟩ => some id
  | _ => none

theorem Task.begins?_eq_some {task : Task} {id : CallId} (h : task.begins? = some id) :
    ∃ options token, task = .start ⟨.execute id, options, token⟩ := by
  match task with
  | .start ⟨.execute _, options, token⟩ =>
    cases h
    exact ⟨options, token, rfl⟩
  | .start ⟨.enqueue _, _, _⟩ => cases h
  | .start ⟨.refetch, _, _⟩ => cases h
  | .start ⟨.watch _ _, _, _⟩ => cases h
  | .resume _ => cases h
  | .notify _ => cases h

namespace Session

variable {σ τ α : Type}

/-- The session without a task that is run now. -/
def taking (s : Session σ τ α) (index : Nat) : Session σ τ α :=
  { s with ready := s.ready.eraseIdx index }

theorem outline_taking {s : Session σ τ α} {index : Nat} {task : Task}
    (h : s.ready[index]? = some task) {execution : Execution}
    (hexecution : task.execution? = some execution) :
    s.outline = (s.taking index).outline.add task := by
  obtain ⟨hindex, rfl⟩ := List.getElem?_eq_some_iff.mp h
  have hperm := ((List.getElem_cons_eraseIdx_perm hindex).filter
    fun task => task.execution?.isSome).append_right (s.waiting.map Task.resume)
  rw [List.filter_cons_of_pos (by rw [hexecution]; rfl)] at hperm
  rw [outline, executions, ← Multiset.coe_eq_coe.mpr hperm]
  rfl

theorem outline_taking_notify {s : Session σ τ α} {index : Nat} {changed : KeySet}
    (h : s.ready[index]? = some (.notify changed)) : s.outline = (s.taking index).outline := by
  obtain ⟨hindex, hnotify⟩ := List.getElem?_eq_some_iff.mp h
  have hperm := ((List.getElem_cons_eraseIdx_perm hindex).filter
    fun task => task.execution?.isSome).append_right (s.waiting.map Task.resume)
  rw [List.filter_cons_of_neg (by rw [hnotify]; exact Bool.false_ne_true)] at hperm
  rw [outline, executions, ← Multiset.coe_eq_coe.mpr hperm]
  rfl

theorem outline_wait (s : Session σ τ α) (inFlight : InFlight) :
    { s with waiting := s.waiting ++ [inFlight] }.outline = s.outline.add (.resume inFlight) := by
  have hperm : { s with waiting := s.waiting ++ [inFlight] }.executions.Perm
      (.resume inFlight :: s.executions) := by
    rw [executions, List.map_append, ← List.append_assoc]
    exact List.perm_append_singleton _ _
  rw [outline, Multiset.coe_eq_coe.mpr hperm]
  rfl

variable [Storage σ]

/-- Makes a move, where an execution that has come through is ended at once. -/
def move (client : Client τ) (s : Session σ τ α) : Move → Session σ τ α
  | .advance index =>
    match s.ready[index]? with
    | none => s
    | some task => (s.taking index).runTask client task
  | move => (Interleaved.step client ⟨s, []⟩ move).session

theorem move_advance (client : Client τ) {s : Session σ τ α} {index : Nat} {task : Task}
    (h : s.ready[index]? = some task) :
    s.move client (.advance index) = (s.taking index).runTask client task := by
  rw [move, h]

/-- A move is a run of the interleaving with nothing in between. -/
theorem exists_run_of_move (client : Client τ) (s : Session σ τ α) (m : Move) :
    ∃ moves count, Interleaved.run client ⟨s, []⟩ moves count = ⟨s.move client m, []⟩ := by
  cases hm : m with
  | advance index =>
    cases hready : s.ready[index]? with
    | none => exact ⟨fun _ => .rest, 0, by rw [move, hready]; rfl⟩
    | some task =>
      have hadvance := Interleaved.advance_eq client (s := ⟨s, []⟩) hready
      let moves : Nat → Move := fun time => if time = 0 then .advance index else .handOver 0
      rw [move_advance client hready, runTask]
      change Interleaved.step client ⟨s, []⟩ (.advance index) =
        Interleaved.settle [] ((s.taking index).poll client task) at hadvance
      rcases hpoll : (s.taking index).poll client task with
        ⟨_ | ⟨execution, ending | inFlight⟩, session⟩ <;> rw [hpoll] at hadvance
      · exact ⟨moves, 1, hadvance⟩
      · refine ⟨moves, 2, ?_⟩
        change Interleaved.step client (Interleaved.step client ⟨s, []⟩ (.advance index))
          (.handOver 0) = _
        rw [hadvance]
        rfl
      · exact ⟨moves, 1, hadvance⟩
  | _ =>
    refine ⟨fun _ => m, 1, ?_⟩
    subst hm
    rfl

/-- A poll that does not start a call leaves the outline as it is, until its execution ends. -/
theorem outline_poll (client : Client τ) (s : Session σ τ α) {task : Task} {execution : Execution}
    (h : task.execution? = some execution) (hbegins : task.begins? = none) :
    ∃ progress after, s.poll client task = (some (execution, progress), after) ∧
      after.outline = s.outline ∧
      ∀ inFlight, progress = .waits inFlight → inFlight.execution = execution := by
  cases task with
  | notify changed => cases h
  | resume inFlight =>
    cases h
    refine ⟨_, _, rfl, s.outline_resume inFlight, fun waiting hwaits => ?_⟩
    rw [resume_waits hwaits]
  | start started =>
    cases h
    refine ⟨(s.dispatch client execution).1, (s.dispatch client execution).2, ?_,
      s.outline_dispatch client execution, fun _ => execution_of_dispatch_waits⟩
    obtain ⟨purpose, options, token⟩ := execution
    cases purpose with
    | execute id => cases hbegins
    | _ => rfl

/-- What is polled is the execution of the task. -/
theorem execution?_of_poll {client : Client τ} {s : Session σ τ α} {task : Task}
    {execution : Execution} {progress : Progress}
    (h : (s.poll client task).1 = some (execution, progress)) :
    task.execution? = some execution := by
  cases hbegins : task.begins? with
  | some id =>
    obtain ⟨options, token, rfl⟩ := Task.begins?_eq_some hbegins
    rw [poll, pollStart] at h
    dsimp only at h
    cases hstart : s.startCall id with
    | error misuse =>
      rw [hstart] at h
      cases h
    | ok started =>
      rw [hstart] at h
      cases h
      rfl
  | none =>
    cases hexecution : task.execution? with
    | none =>
      cases task with
      | notify changed => cases h
      | _ => cases hexecution
    | some own =>
      obtain ⟨_, _, hpoll, -, -⟩ := s.outline_poll client hexecution hbegins
      rw [hpoll] at h
      cases h
      rfl

omit [Storage σ] in
theorem changes_conclude (s : Session σ τ α) (execution : Execution) {progress : Progress}
    (hwaits : ∀ inFlight, progress = .waits inFlight → inFlight.execution = execution) :
    s.outline.Changes execution.purpose.owner? (s.conclude execution progress).outline := by
  cases progress with
  | ended ending => exact s.changes_finish execution ending
  | waits inFlight =>
    rw [conclude, outline_wait]
    refine .add .refl ?_
    rw [Task.owner?, Task.execution?, Option.bind_some, hwaits inFlight rfl]

/-- A poll starts a call at most. -/
theorem changes_poll (client : Client τ) (s : Session σ τ α) (task : Task) :
    s.outline.Changes task.owner? (s.poll client task).2.outline := by
  cases hbegins : task.begins? with
  | some id =>
    obtain ⟨options, token, rfl⟩ := Task.begins?_eq_some hbegins
    rw [poll, pollStart]
    dsimp only
    cases hstart : s.startCall id with
    | error misuse =>
      have hreport : (s.report [.misused id misuse]).outline =
          s.outline.tell (.misused id misuse) := s.outline_report_told rfl
      dsimp only
      rw [hreport]
      exact .tell .refl rfl
    | ok started =>
      have hstarted := changes_startCall hstart
      rwa [← outline_dispatch client started ⟨.execute id, options, token⟩] at hstarted
  | none =>
    cases hexecution : task.execution? with
    | none =>
      cases task with
      | notify changed => exact (s.fetches_notify changed).changes _
      | _ => cases hexecution
    | some execution =>
      obtain ⟨progress, after, hpoll, houtline, -⟩ := s.outline_poll client hexecution hbegins
      rw [hpoll, houtline]
      exact .refl

/-- What a poll leaves waiting is the execution that was polled. -/
theorem execution_of_poll_waits {client : Client τ} {s : Session σ τ α} {task : Task}
    {execution : Execution} {inFlight : InFlight}
    (h : (s.poll client task).1 = some (execution, .waits inFlight)) :
    inFlight.execution = execution := by
  have hexecution := execution?_of_poll h
  cases hbegins : task.begins? with
  | none =>
    obtain ⟨progress, after, heq, -, hwaits⟩ := s.outline_poll client hexecution hbegins
    rw [heq] at h
    cases h
    exact hwaits inFlight rfl
  | some id =>
    obtain ⟨options, token, rfl⟩ := Task.begins?_eq_some hbegins
    rw [poll, pollStart] at h
    dsimp only at h
    cases hstart : s.startCall id with
    | error misuse =>
      rw [hstart] at h
      cases h
    | ok started =>
      rw [hstart] at h
      obtain ⟨hsame, hwaits⟩ := Prod.mk.inj (Option.some.inj h)
      rw [← hsame]
      exact execution_of_dispatch_waits hwaits

/-- Running a task changes something for its owner. -/
theorem changes_runTask (client : Client τ) (s : Session σ τ α) (task : Task) :
    s.outline.Changes task.owner? (s.runTask client task).outline := by
  have hpolled := s.changes_poll client task
  rw [runTask]
  rcases hpoll : s.poll client task with ⟨_ | ⟨execution, progress⟩, after⟩ <;> rw [hpoll] at hpolled
  · exact hpolled
  · have howner : task.owner? = execution.purpose.owner? := by
      rw [Task.owner?, execution?_of_poll (congrArg Prod.fst hpoll), Option.bind_some]
    have hwaits : ∀ inFlight, progress = .waits inFlight → inFlight.execution = execution := by
      rintro inFlight rfl
      exact execution_of_poll_waits (congrArg Prod.fst hpoll)
    have hconcluded := after.changes_conclude execution hwaits
    rw [← howner] at hconcluded
    exact hpolled.trans hconcluded

omit [Storage σ] in
/-- The owner that a move is about; that a watcher may have to fetch again does not count. -/
def concerned? (s : Session σ τ α) : Move → Option Owner
  | .advance index => (s.ready[index]?).bind Task.owner?
  | .execute id => some (.call id)
  | .enqueue id => some (.call id)
  | .watch id => some (.watcher id)
  | .cancelWatcher id => some (.watcher id)
  | _ => none

theorem changes_advance (client : Client τ) {s : Session σ τ α} {index : Nat} {task : Task}
    (h : s.ready[index]? = some task) :
    s.outline.Changes task.owner? (s.move client (.advance index)).outline := by
  have htaking : s.outline.Changes task.owner? (s.taking index).outline := by
    cases hexecution : task.execution? with
    | some execution =>
      rw [outline_taking h hexecution]
      exact .take .refl rfl
    | none =>
      cases task with
      | notify changed =>
        rw [outline_taking_notify h]
        exact .refl
      | _ => cases hexecution
  rw [move_advance client h]
  exact htaking.trans (changes_runTask client _ task)

/-- A move changes something for the owner that it is about. Cancelling a call changes tokens. -/
theorem changes_move (client : Client τ) (s : Session σ τ α) {m : Move}
    (h : ∀ id, m ≠ .cancelCall id) :
    s.outline.Changes (s.concerned? m) (s.move client m).outline := by
  cases m with
  | advance index =>
    cases hready : s.ready[index]? with
    | none =>
      rw [move, hready]
      exact .refl
    | some task =>
      rw [concerned?, hready, Option.bind_some]
      exact changes_advance client hready
  | handOver index => exact .refl
  | write operation data =>
    change s.outline.Changes none (s.writeAndPublish operation data).2.outline
    rw [outline_writeAndPublish]
    exact .refl
  | openGate gate =>
    change s.outline.Changes none (s.openGate gate).outline
    rw [openGate, outline_wake]
    exact .refl
  | execute id => exact s.changes_execute id
  | enqueue id =>
    change s.outline.Changes _ ((s.enqueue id).toOption.getD s).outline
    cases henqueue : s.enqueue id with
    | error misuse => exact .refl
    | ok after => exact changes_enqueue henqueue
  | cancelCall id => exact absurd rfl (h id)
  | watch id =>
    change s.outline.Changes _ ((s.watch id).toOption.getD s).outline
    cases hwatch : s.watch id with
    | error misuse => exact .refl
    | ok after => exact changes_watch hwatch
  | refetch id => exact (s.fetches_refetch id).changes none
  | cancelWatcher id => exact s.changes_cancelWatcher id
  | rest => exact .refl

/-- A move that is not about an owner passes it aside. -/
theorem aside_move (client : Client τ) {s : Session σ τ α} {owner : Owner} {m : Move}
    (h : s.concerned? m ≠ some owner) : s.outline.Aside owner (s.move client m).outline := by
  by_cases hcancels : ∃ id, m = .cancelCall id
  · obtain ⟨id, rfl⟩ := hcancels
    exact (s.leaves_cancelCall owner id).aside
  · rw [not_exists] at hcancels
    exact (s.changes_move client hcancels).aside h

end Session

end GraphClient
