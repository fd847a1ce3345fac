import GraphClient.Proofs.Session.Completion

/-!
# Fetches after a success

What a call fetches once it has succeeded begins with one section of its end, and only after the
pipeline has answered with a response; no poll of its execution begins any of it, and no other section
of its end. So a call that fails begins none, whatever it fails with and whenever it is canceled
(`followsSuccess_run`).

There is one exception, for the data is decoded later: a response with data that does not decode begins
the fetches, and its outcome is a failure (`exists_refetched_undecodable`).
-/

namespace GraphClient.Completing

variable {σ τ α : Type} {s s' : Completing σ τ α} {id : CallId} {call : Call α}
  {decoder : Json → Option α} {ending : Ending Json}

/-- What a call ends with is settled, or was told. -/
inductive Settled (s : Completing σ τ α) (id : CallId) (decoder : Json → Option α)
    (ending : Ending Json) : Prop
  | pending {f : Finishing} : Assoc.get? s.finishing id = some f → f.stage ≠ .arrived →
      f.ending = ending → s.session.outcomesOf id = [] → Settled s id decoder ending
  | told : Assoc.get? s.finishing id = none →
      s.session.outcomesOf id = [ending.bind (Response.decode decoder)] →
      Settled s id decoder ending

theorem Settled.turn (h : Settled s id decoder ending) (hturns : Turns s s' id decoder) :
    Settled s' id decoder ending := by
  cases h with
  | pending hfinishing hstage hending huntold =>
    cases hturns with
    | rests hsame houtcomes =>
      exact .pending (hsame.trans hfinishing) hstage hending (houtcomes.trans huntold)
    | arrives hnone => cases hnone.symm.trans hfinishing
    | settles _ hsome harrived =>
      cases hsome.symm.trans hfinishing
      exact absurd harrived hstage
    | follows hsome _ _ hnext houtcomes =>
      cases hsome.symm.trans hfinishing
      exact .pending hnext (fun h => by cases h) hending houtcomes
    | tells hsome _ _ hnext houtcomes =>
      cases hsome.symm.trans hfinishing
      rw [hending] at houtcomes
      exact .told hnext houtcomes
  | told hfinishing htold =>
    -- no execution is under way, and the outcome was told
    cases hturns with
    | rests hsame houtcomes => exact .told (hsame.trans hfinishing) (houtcomes.trans htold)
    | arrives _ huntold => cases huntold.symm.trans htold
    | settles _ hsome => cases hfinishing.symm.trans hsome
    | follows hsome => cases hfinishing.symm.trans hsome
    | tells hsome => cases hfinishing.symm.trans hsome

theorem Settled.eq_of_mem (h : Settled s id decoder ending) {outcome : Ending α}
    (hmem : outcome ∈ s.session.outcomesOf id) :
    outcome = ending.bind (Response.decode decoder) := by
  cases h with
  | pending _ _ _ huntold =>
    rw [huntold] at hmem
    cases hmem
  | told _ htold =>
    rw [htold] at hmem
    exact List.mem_singleton.mp hmem

/-- What was not told after an act was not told before. -/
theorem Turns.untold (h : Turns s s' id decoder) (huntold : s'.session.outcomesOf id = []) :
    s.session.outcomesOf id = [] := by
  cases h with
  | rests _ houtcomes => exact houtcomes.symm.trans huntold
  | arrives _ hbefore => exact hbefore
  | settles _ _ _ hbefore => exact hbefore
  | follows _ _ hbefore => exact hbefore
  | tells _ _ hbefore => exact hbefore

/-- The end of a call begins something in one section only, and only after a response. -/
theorem quiet_goOn_or (s : Completing σ τ α) (id : CallId) :
    s.session.Quiet (s.goOn id).session ∨ ∃ f response, Assoc.get? s.finishing id = some f ∧
      f.stage = .settled ∧ f.ending = .ok response ∧ f.execution.options.refetches = true := by
  cases hfinishing : Assoc.get? s.finishing id with
  | none =>
    rw [goOn, hfinishing]
    exact .inl (.refl _)
  | some f =>
    rw [goOn, hfinishing]
    cases hstage : f.stage <;> simp only [hstage]
    case arrived =>
      rw [Session.complete]
      split
      · exact .inl (.refl _)
      · exact .inl ⟨rfl, rfl, rfl, rfl, rfl, rfl, rfl, rfl⟩
    case settled =>
      rw [Session.followUp]
      split
      · exact .inl (.refl _)
      · split
        · next hrefetches =>
          rw [Bool.and_eq_true] at hrefetches
          cases hending : f.ending with
          | error failure =>
            rw [hending] at hrefetches
            cases hrefetches.1
          | ok response => exact .inr ⟨f, response, rfl, hstage, hending, hrefetches.2⟩
        · exact .inl (.refl _)
    case followed =>
      rw [Session.tellOutcome]
      split <;> exact .inl ⟨rfl, rfl, rfl, rfl, rfl, rfl, rfl, rfl⟩

variable [Storage σ]

/-- What a call guarantees about the fetches after its success while acts are made. -/
structure FollowsSuccess (client : Client τ) (id : CallId) (call : Call α)
    (run : Nat → Completing σ τ α) (acts : Nat → Act) : Prop where
  /-- A poll of the execution of the call leaves nothing to be run but the execution itself. -/
  polled : ∀ t m execution progress, acts t = .move m →
    (run t).session.polled? client m = some (execution, progress) →
    execution.purpose.owner? = some (.call id) → ∀ task ∈ (run (t + 1)).session.executions,
      task ∈ (run t).session.executions ∨
        ∃ inFlight, progress = .waits inFlight ∧ task = .resume inFlight
  /-- If the end of the call begins anything, the pipeline has answered with a response, the call
  fetches after a success, and nothing is ever told but this response, decoded. -/
  followed : ∀ t, acts t = .goOn id → ¬ (run t).session.Quiet (run (t + 1)).session →
    ∃ f response, Assoc.get? (run t).finishing id = some f ∧ f.stage = .settled ∧
      f.ending = .ok response ∧ f.execution.options.refetches = true ∧
      ∀ u, ∀ outcome ∈ (run u).session.outcomesOf id, outcome = response.decode call.decoder
  /-- If a failure is told, the end of the call begins nothing, unless the failure is that the data of
  a response cannot be decoded. -/
  failed : ∀ u failure, .error failure ∈ (run u).session.outcomesOf id →
    (∀ t, acts t = .goOn id → (run t).session.Quiet (run (t + 1)).session) ∨
      ∃ t f response, Assoc.get? (run t).finishing id = some f ∧ f.ending = .ok response ∧
        response.decode call.decoder = .error failure

section Run

variable {client : Client τ} {session : Session σ τ α}

theorem standing_run (client : Client τ) (hnew : session.IsUnused id call) (acts : Nat → Act)
    (t : Nat) : ∃ call', Standing (run client ⟨session, []⟩ acts t) id call' ∧
      call.Precedes call' := by
  induction t with
  | zero => exact ⟨call, .single rfl hnew.single, .refl call⟩
  | succ t ih =>
    obtain ⟨before, hbefore, hprecedes⟩ := ih
    obtain ⟨after, hafter, hnext, -⟩ := standing_act client hbefore (acts t)
    exact ⟨after, hafter, hnext.token.trans hprecedes.token, hnext.decoder.trans hprecedes.decoder,
      fun hexecuted => hnext.executed (hprecedes.executed hexecuted)⟩

theorem turns_run (client : Client τ) (hnew : session.IsUnused id call) (acts : Nat → Act)
    (t : Nat) : Turns (run client ⟨session, []⟩ acts t) (run client ⟨session, []⟩ acts (t + 1)) id
      call.decoder := by
  obtain ⟨before, hbefore, hprecedes⟩ := standing_run client hnew acts t
  obtain ⟨-, -, -, hturns⟩ := standing_act client hbefore (acts t)
  rwa [hprecedes.decoder] at hturns

theorem settled_of_le (hnew : session.IsUnused id call) {acts : Nat → Act} {t u : Nat} (hle : t ≤ u)
    (h : Settled (run client ⟨session, []⟩ acts t) id call.decoder ending) :
    Settled (run client ⟨session, []⟩ acts u) id call.decoder ending := by
  induction hle with
  | refl => exact h
  | step _ ih => exact ih.turn (turns_run client hnew acts _)

theorem untold_of_le (hnew : session.IsUnused id call) {acts : Nat → Act} {t u : Nat} (hle : u ≤ t)
    (h : (run client ⟨session, []⟩ acts t).session.outcomesOf id = []) :
    (run client ⟨session, []⟩ acts u).session.outcomesOf id = [] := by
  induction hle with
  | refl => exact h
  | step _ ih => exact ih ((turns_run client hnew acts _).untold h)

/-- What is told of a call is what its end has settled, whenever that is. -/
theorem eq_of_mem_outcomesOf (hnew : session.IsUnused id call) {acts : Nat → Act} {t : Nat}
    {f : Finishing}
    (hfinishing : Assoc.get? (run client ⟨session, []⟩ acts t).finishing id = some f)
    (hstage : f.stage ≠ .arrived) {u : Nat} {outcome : Ending α}
    (hmem : outcome ∈ (run client ⟨session, []⟩ acts u).session.outcomesOf id) :
    outcome = f.ending.bind (Response.decode call.decoder) := by
  have huntold : (run client ⟨session, []⟩ acts t).session.outcomesOf id = [] := by
    obtain ⟨before, hbefore, -⟩ := standing_run client hnew acts t
    cases hbefore with
    | single hnone => cases hnone.symm.trans hfinishing
    | ending _ hinHand => exact untold_of_inHand hinHand
  rcases Nat.le_total t u with hle | hle
  · exact (settled_of_le hnew hle (.pending hfinishing hstage rfl huntold)).eq_of_mem hmem
  · rw [untold_of_le hnew hle huntold] at hmem
    cases hmem

/-- Whatever the acts are, a poll of the execution of a call begins no fetch of the call. -/
theorem mem_executions_of_polled? (client : Client τ) {s : Completing σ τ α}
    (h : Standing s id call) {m : Move} {execution : Execution} {progress : Progress}
    (hpolled : s.session.polled? client m = some (execution, progress))
    (hown : execution.purpose.owner? = some (.call id)) {task : Task}
    (hmem : task ∈ (s.act client (.move m)).session.executions) :
    task ∈ s.session.executions ∨ ∃ inFlight, progress = .waits inFlight ∧ task = .resume inFlight := by
  cases h with
  | ending _ hinHand => exact absurd hown (Session.owner?_ne_of_polled? client hinHand hpolled)
  | single _ hsingle =>
    rw [act] at hmem
    cases harrival : arrival? client s.session m with
    | none =>
      rw [harrival] at hmem
      obtain ⟨_, hmoved⟩ := Session.moved_move client hsingle m
      refine (hmoved.yields execution progress hpolled hown task hmem).imp_right ?_
      rintro (hwaits | ⟨⟨response, rfl⟩, -⟩)
      · exact hwaits
      · obtain ⟨f, after, harrived⟩ :=
          exists_arrival?_of_polled? hpolled (Purpose.call?_eq_some_iff.mpr hown)
        cases harrival.symm.trans harrived
    | some arrived =>
      obtain ⟨other, f, after⟩ := arrived
      cases (polled?_of_arrival? harrival).symm.trans hpolled
      obtain ⟨index, polled, rfl, hready, hpoll, -, -⟩ := arrival?_eq_some harrival
      rw [harrival] at hmem
      have hexecution := Session.execution?_of_poll (congrArg Prod.fst hpoll)
      have howner : polled.owner? = some (.call id) := by
        rw [Task.owner?, hexecution, Option.bind_some, hown]
      rcases Session.misused_or_takesInHand client hsingle hready howner with
        ⟨hexecuted, options, token, rfl⟩ | ⟨_, _, _, _, htakes⟩
      · rw [(Session.advance_of_executed client hsingle.get hexecuted hready).2] at hpolled
        cases hpolled
      · cases htakes.poll.symm.trans hpoll
        change task ∈ after.outline.tasks at hmem
        rw [htakes.tasks] at hmem
        change _ ∈ s.session.outline.tasks ∨ _
        rw [Session.outline_taking hready hexecution]
        exact .inl (Multiset.mem_cons_of_mem hmem)

/-- If the end of a call begins anything, a response has come through, and nothing is ever told but
this response, decoded. -/
theorem exists_response_of_begins (hnew : session.IsUnused id call) {acts : Nat → Act} {t : Nat}
    (hact : acts t = .goOn id)
    (hbegins : ¬ (run client ⟨session, []⟩ acts t).session.Quiet
      (run client ⟨session, []⟩ acts (t + 1)).session) :
    ∃ f response, Assoc.get? (run client ⟨session, []⟩ acts t).finishing id = some f ∧
      f.stage = .settled ∧ f.ending = .ok response ∧ f.execution.options.refetches = true ∧
      ∀ u, ∀ outcome ∈ (run client ⟨session, []⟩ acts u).session.outcomesOf id,
        outcome = response.decode call.decoder := by
  rw [run, hact] at hbegins
  rcases quiet_goOn_or (run client ⟨session, []⟩ acts t) id with hquiet | hresponse
  · exact absurd hquiet hbegins
  · obtain ⟨f, response, hfinishing, hstage, hending, hrefetches⟩ := hresponse
    refine ⟨f, response, hfinishing, hstage, hending, hrefetches, fun u outcome hmem => ?_⟩
    have hsettled : f.stage ≠ .arrived := by
      rw [hstage]
      exact fun h => by cases h
    have houtcome := eq_of_mem_outcomesOf hnew hfinishing hsettled hmem
    rwa [hending] at houtcome

/-- Whatever acts are made, a call that was not used before fetches only after a success. -/
theorem followsSuccess_run (client : Client τ) (hnew : session.IsUnused id call)
    (acts : Nat → Act) : FollowsSuccess client id call (run client ⟨session, []⟩ acts) acts := by
  constructor
  case polled =>
    intro t m execution progress hact hpolled hown task hmem
    obtain ⟨before, hbefore, -⟩ := standing_run client hnew acts t
    rw [run, hact] at hmem
    exact mem_executions_of_polled? client hbefore hpolled hown hmem
  case followed => exact fun t hact hbegins => exists_response_of_begins hnew hact hbegins
  case failed =>
    intro u failure hmem
    by_contra hnot
    rw [not_or] at hnot
    obtain ⟨t, hbegins⟩ := not_forall.mp hnot.1
    obtain ⟨hact, hbegins⟩ := Classical.not_imp.mp hbegins
    obtain ⟨f, response, hfinishing, -, hending, -, htold⟩ :=
      exists_response_of_begins hnew hact hbegins
    exact hnot.2 ⟨t, f, response, hfinishing, hending, (htold u _ hmem).symm⟩

end Run

section Rename

/-- The new name, if the data has one. -/
private def newName? (data : Json) : Option String :=
  data.asObject?.bind fun members => (Assoc.get? members "rename").bind Json.asString?

private def heroOperation : Operation :=
  { name := "Hero", document := "", id := "hero", selections := [] }

private def renameOptions : CallOptions :=
  { operation := { name := "Rename", document := "", id := "rename",
                   selections := [.field { responseName := "rename", name := "rename" } .leaf] }
    control := .networkOnly
    refetchOperations := [heroOperation] }

private def untouched : Session MemoryContents Unit String :=
  { store := { resolver := .byTypeAndId, contents := .empty }, transport := () }

private def renamable : Session MemoryContents Unit String :=
  (untouched.newCall renameOptions newName?).2

private def renameCall : Call String :=
  { options := renameOptions, decoder := newName?, token := ⟨0, []⟩ }

private theorem isUnused_renamable (client : Client Unit) : renamable.IsUnused ⟨0⟩ renameCall :=
  have hreachable : untouched.Reachable client := .new _ _
  Session.isUnused_newCall hreachable renameOptions newName?

/-- The call is executed and ends, and then the fetch that it has begun is polled. -/
private def renameActs (time : Nat) : Act :=
  [.move (.enqueue ⟨0⟩), .move (.advance 0), .goOn ⟨0⟩, .goOn ⟨0⟩, .goOn ⟨0⟩,
    .move (.advance 1)].getD time (.move .rest)

/-- Every answer has the new name, which may be missing. -/
private def renamed (name : String) : Client Unit :=
  let body := "\x7b\"data\":\x7b\"rename\":" ++ name ++ "\x7d\x7d"
  { server := { url := "" }
    transport := ⟨fun _ s => ({ result := .ok ⟨200, body.toUTF8⟩ }, s)⟩ }

/-- The new names and the failures that were told, in order. -/
private def heard (s : Completing MemoryContents Unit String) :
    List (Except String (Option String)) :=
  (s.session.outcomesOf ⟨0⟩).map fun outcome =>
    (outcome.map Response.data).mapError Failure.message

theorem followsSuccess_renameCall :
    renamable.IsUnused ⟨0⟩ renameCall ∧
      FollowsSuccess (renamed "\"Solo\"") ⟨0⟩ renameCall
        (run (renamed "\"Solo\"") ⟨renamable, []⟩ renameActs) renameActs ∧
      heard (run (renamed "\"Solo\"") ⟨renamable, []⟩ renameActs 5) = [.ok (some "Solo")] ∧
      (run (renamed "\"Solo\"") ⟨renamable, []⟩ renameActs 6).session.requests.length = 2 := by
  have hnew := isUnused_renamable (renamed "\"Solo\"")
  exact ⟨hnew, followsSuccess_run (renamed "\"Solo\"") hnew renameActs, by decide +kernel,
    by decide +kernel⟩

/-- The answer lacks the new name, which the caller cannot do without. The call begins its fetch, tells
a failure, and the request of the fetch is sent. -/
theorem exists_refetched_undecodable :
    renamable.IsUnused ⟨0⟩ renameCall ∧ renameActs 3 = .goOn ⟨0⟩ ∧
      ¬ (run (renamed "null") ⟨renamable, []⟩ renameActs 3).session.Quiet
        (run (renamed "null") ⟨renamable, []⟩ renameActs 4).session ∧
      heard (run (renamed "null") ⟨renamable, []⟩ renameActs 5) =
        [.error "response was malformed: could not decode data"] ∧
      (run (renamed "null") ⟨renamable, []⟩ renameActs 6).session.requests.length = 2 := by
  refine ⟨isUnused_renamable (renamed "null"), rfl, fun hquiet => ?_, by decide +kernel,
    by decide +kernel⟩
  have hready := congrArg List.length hquiet.ready
  revert hready
  decide +kernel

end Rename

end GraphClient.Completing
