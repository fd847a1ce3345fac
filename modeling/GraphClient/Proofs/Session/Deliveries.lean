import GraphClient.Proofs.Session.Turns

/-!
# What a watcher delivers

Turns follow each other in any order: a watcher is started, asked to fetch and canceled, watchers are
notified, and fetches end late, in any order and in any way. Whatever they are, a watcher that was new
delivers the results of its fetches in the order in which these began, and only that of the newest; it
is silent once it is canceled (`watched_play`).

A run keeps a watcher orderly, so what the guarantees say of single turns is what `Turned` says. What
they say of two turns is carried from one to the other: a fetch that has ended stays behind
(`Passed`), and what was delivered last is compared with until something else is delivered.
-/

namespace GraphClient.Session

variable {σ τ α : Type}

/-- The state of a watcher; an unknown one is as if it were new. -/
def watcherState (s : Session σ τ α) (id : WatcherId) : WatcherState :=
  ((Assoc.get? s.watchers id).map Watcher.state).getD {}

/-- A watcher was made, and nothing happened to it but that the cache control of its later fetches
may have been replaced. -/
structure IsNew (s : Session σ τ α) (id : WatcherId) (watcher : Watcher α) : Prop where
  get : Assoc.get? s.watchers id = some watcher
  state : ∃ control, watcher.state = { refetchControl := control }
  unfinished : s.unfinished id = []
  heard : s.heardBy id = []

variable [Storage σ]

/-- The result of a fetch of a watcher reaches its callback with a turn. -/
structure Delivers (client : Client τ) (decoder : Json → Option α) (id : WatcherId)
    (s : Session σ τ α) (turn : Turn) (generation : Nat) (ending : Ending Json) : Prop where
  completed : s.completed? client id turn = some (generation, ending)
  heard : (s.turn client turn).heardBy id =
    s.heardBy id ++ [ending.bind (Response.decode decoder)]

/-- A callback is told with a turn that the watcher is canceled, though no fetch ends with it. -/
structure TellsCanceled (client : Client τ) (id : WatcherId) (s : Session σ τ α) (turn : Turn) :
    Prop where
  completed : s.completed? client id turn = none
  heard : (s.turn client turn).heardBy id = s.heardBy id ++ [.error .canceled]

/-- What a watcher guarantees while turns are taken. -/
structure Watched (client : Client τ) (decoder : Json → Option α) (id : WatcherId)
    (run : Nat → Session σ τ α) (turns : Nat → Turn) : Prop where
  /-- A callback is told results and cancellations, and nothing else. -/
  told : ∀ t, (run (t + 1)).heardBy id = (run t).heardBy id ∨
    (∃ generation ending, (run t).Delivers client decoder id (turns t) generation ending) ∨
    (run t).TellsCanceled client id (turns t)
  /-- A result is delivered when it is that of the newest fetch, and the watcher is not canceled. -/
  newest : ∀ t generation ending, (run t).Delivers client decoder id (turns t) generation ending →
    ((run t).watcherState id).canceled = false ∧
      ((run t).watcherState id).generation = generation ∧
      (∃ token, (generation, token) ∈ (run t).unfinished id) ∧
      (∀ fetch ∈ (run t).unfinished id, fetch.1 ≤ generation) ∧
      Ending.isCanceled (ending.bind (Response.decode decoder)) = false
  /-- A fetch that is superseded or was canceled with its watcher delivers nothing. -/
  superseded : ∀ t generation ending,
    (run t).completed? client id (turns t) = some (generation, ending) →
    ((run t).watcherState id).canceled = true ∨
      ((run t).watcherState id).generation ≠ generation →
    (run (t + 1)).heardBy id = (run t).heardBy id
  /-- Fetches are numbered in the order in which they begin. -/
  numbered : ∀ t, (((run t).unfinished id).map Prod.fst).Nodup ∧
    ∀ fetch ∈ (run (t + 1)).unfinished id,
      fetch ∈ (run t).unfinished id ∨ ((run t).watcherState id).generation < fetch.1
  /-- Results are delivered in the order of their fetches, at most one for each. -/
  ordered : ∀ t t' generation generation' ending ending', t < t' →
    (run t).Delivers client decoder id (turns t) generation ending →
    (run t').Delivers client decoder id (turns t') generation' ending' → generation < generation'
  /-- Responses that are delivered one after the other differ in data or errors. -/
  distinct : ∀ t t' generation generation' response response', t < t' →
    (run t).Delivers client decoder id (turns t) generation (.ok response) →
    (run t').Delivers client decoder id (turns t') generation' (.ok response') →
    (∀ u, t < u → u < t' → ∀ generation ending,
      ¬ (run u).Delivers client decoder id (turns u) generation ending) →
    (response.content == response'.content) = false
  /-- Of the fetches that have not ended only the newest is not canceled, and none once the watcher
  is canceled. -/
  uncanceled : ∀ t generation token, (generation, token) ∈ (run t).unfinished id →
    (run t).tokens.isCanceled token = false →
    ((run t).watcherState id).canceled = false ∧
      ((run t).watcherState id).generation = generation
  canceledOnce : ∀ t, ((run t).heardBy id).countP Ending.isCanceled ≤ 1
  /-- A callback is told of a cancellation by the cancellation itself, while the newest fetch is
  out, or as the canceled watcher is started. -/
  canceledBy : ∀ t, (run t).TellsCanceled client id (turns t) →
    (turns t = .move (.cancelWatcher id) ∧ ((run t).watcherState id).canceled = false ∧
      ∃ token, (((run t).watcherState id).generation, token) ∈ (run t).unfinished id) ∨
    (turns t = .move (.watch id) ∧ ((run t).watcherState id).canceled = true ∧
      ((run t).watcherState id).started = false)
  canceled : ∀ t, turns t = .move (.cancelWatcher id) →
    ((run (t + 1)).watcherState id).canceled = true
  /-- A watcher that is canceled stays so, begins no fetch, and delivers nothing; if it was never
  started, its callback is told of the cancellation when that is tried. -/
  rests : ∀ t t', t ≤ t' → ((run t).watcherState id).canceled = true →
    ((run t').watcherState id).canceled = true ∧
      ((run t').watcherState id).generation = ((run t).watcherState id).generation ∧
      ((run t').unfinished id).Subperm ((run t).unfinished id) ∧
      ((run t').heardBy id = (run t).heardBy id ∨
        ((run t).watcherState id).started = false ∧
          (run t').heardBy id = (run t).heardBy id ++ [.error .canceled])

variable {client : Client τ} {id : WatcherId} {s : Session σ τ α} {watcher watcher' : Watcher α}

omit [Storage σ] in
theorem watcherState_of_orderly (ho : s.outline.Orderly id watcher) :
    s.watcherState id = watcher.state := by
  have hget : Assoc.get? s.watchers id = some watcher := ho.get
  rw [watcherState, hget]
  rfl

omit [Storage σ] in
theorem IsNew.orderly (h : s.IsNew id watcher) : s.outline.Orderly id watcher := by
  obtain ⟨control, hstate⟩ := h.state
  have htimes : s.outline.timesCanceled id = 0 := by
    rw [Outline.timesCanceled, heardBy_outline, h.heard]
    rfl
  have hfetches : s.outline.fetchesOf id = 0 := by
    rw [fetchesOf_outline, h.unfinished]
    rfl
  refine .of_no_fetch h.get hfetches ?_ (fun _ => htimes) ?_
  · rw [hstate]
  · rw [htimes]
    exact Nat.zero_le 1

/-- A run keeps a watcher orderly. -/
theorem orderly_play (client : Client τ) (ho : s.outline.Orderly id watcher) (turns : Nat → Turn)
    (t : Nat) : ∃ watcher', (s.play client turns t).outline.Orderly id watcher' ∧
      watcher'.decoder = watcher.decoder := by
  induction t with
  | zero => exact ⟨watcher, ho, rfl⟩
  | succ t ih =>
    obtain ⟨before, hbefore, hdecoder⟩ := ih
    obtain ⟨after, hafter, hturned⟩ := turned_turn client hbefore (turns t)
    exact ⟨after, hafter, hturned.decoder.trans hdecoder⟩

variable {turn : Turn} {generation : Nat} {ending : Ending Json}

theorem heardBy_turn (client : Client τ) (ho : s.outline.Orderly id watcher) (turn : Turn) :
    (s.turn client turn).heardBy id = s.heardBy id ∨
      (∃ generation ending, s.Delivers client watcher.decoder id turn generation ending) ∨
      s.TellsCanceled client id turn := by
  obtain ⟨watcher', -, hturned⟩ := turned_turn client ho turn
  have hbefore := s.heardBy_outline id
  have hafter := (s.turn client turn).heardBy_outline id
  cases hturned with
  | aside _ _ hcontinues => exact .inl (hafter.symm.trans (hcontinues.heard.trans hbefore))
  | ended _ hcompleted _ hheard =>
    rw [hbefore, hafter] at hheard
    split at hheard
    · exact .inr (.inl ⟨_, _, hcompleted, hheard⟩)
    · exact .inl hheard
  | startedCanceled hcompleted _ _ _ _ hheard =>
    rw [hbefore, hafter] at hheard
    exact .inr (.inr ⟨hcompleted, hheard⟩)
  | canceled hcompleted _ _ _ hheard =>
    rw [hbefore, hafter] at hheard
    split at hheard
    · exact .inr (.inr ⟨hcompleted, hheard⟩)
    · exact .inl (hheard.trans (List.append_nil _))

/-- A fetch of this generation is no longer out, and no fetch to come is of it. -/
def Passed (s : Session σ τ α) (id : WatcherId) (generation : Nat) : Prop :=
  generation ≤ (s.watcherState id).generation ∧ ∀ fetch ∈ s.unfinished id, fetch.1 ≠ generation

theorem Passed.passed_turn (h : s.Passed id generation) (ho : s.outline.Orderly id watcher)
    (turn : Turn) : (s.turn client turn).Passed id generation := by
  obtain ⟨hle, hnone⟩ := h
  obtain ⟨watcher', horderly, hturned⟩ := turned_turn client ho turn
  obtain ⟨hrises, hnewer⟩ := hturned.newer
  rw [watcherState_of_orderly ho] at hle
  rw [Passed, watcherState_of_orderly horderly]
  refine ⟨Nat.le_trans hle hrises, fun fetch hfetch => ?_⟩
  rcases hnewer fetch hfetch with hold | hnew
  · exact hnone fetch hold
  · exact Nat.ne_of_gt (Nat.lt_of_le_of_lt hle hnew)

/-- What is known of a watcher when a result is delivered. -/
theorem Delivers.newest (h : s.Delivers client watcher.decoder id turn generation ending)
    (ho : s.outline.Orderly id watcher) :
    watcher.state.canceled = false ∧ watcher.state.generation = generation ∧
      (∃ token, (generation, token) ∈ s.unfinished id) ∧ ending.isCanceled = false ∧
      (watcher.state.received generation ending).2 = true := by
  obtain ⟨watcher', -, hturned⟩ := turned_turn client ho turn
  rw [h.completed] at hturned
  have hheard := h.heard
  rw [← heardBy_outline, ← heardBy_outline] at hheard
  obtain ⟨hlive, hnewest, hending, hdelivers, token, _, hfetches, -⟩ :=
    hturned.of_delivers hheard
  refine ⟨hlive, hnewest, ⟨token, ?_⟩, hending, hdelivers⟩
  rw [← Multiset.mem_coe, ← fetchesOf_outline, hfetches]
  exact Multiset.mem_cons_self _ _

/-- What is known of a watcher once a result was delivered. -/
theorem Delivers.after (h : s.Delivers client watcher.decoder id turn generation ending)
    (ho : s.outline.Orderly id watcher) :
    (s.turn client turn).Passed id generation ∧
      ((s.turn client turn).watcherState id).lastDelivered =
        (watcher.state.received generation ending).1.lastDelivered := by
  obtain ⟨watcher', horderly, hturned⟩ := turned_turn client ho turn
  rw [h.completed] at hturned
  have hheard := h.heard
  rw [← heardBy_outline, ← heardBy_outline] at hheard
  obtain ⟨-, hnewest, -, -, token, subscription, hfetches, hsettled⟩ := hturned.of_delivers hheard
  have hnodup := ho.nodup
  rw [hfetches, Multiset.map_cons, Multiset.nodup_cons] at hnodup
  obtain ⟨_, _, hstate, -⟩ := Outline.settling_eq watcher generation ending subscription
  rw [Passed, watcherState_of_orderly horderly]
  refine ⟨⟨?_, fun fetch hfetch hsame => hnodup.1 ?_⟩, by rw [hsettled]; rfl⟩
  · rw [hsettled, hstate]
    exact Nat.le_of_eq hnewest.symm
  · exact Multiset.mem_map.mpr ⟨fetch, hfetch, hsame⟩

theorem lastDelivered_turn (ho : s.outline.Orderly id watcher)
    (h : ∀ generation ending, ¬ s.Delivers client watcher.decoder id turn generation ending) :
    ((s.turn client turn).watcherState id).lastDelivered =
      (s.watcherState id).lastDelivered := by
  obtain ⟨watcher', horderly, hturned⟩ := turned_turn client ho turn
  rw [watcherState_of_orderly ho, watcherState_of_orderly horderly]
  refine hturned.lastDelivered fun generation ending hcompleted => ?_
  rw [heardBy_outline, heardBy_outline]
  rcases heardBy_turn client ho turn with
    hsame | ⟨_, _, hdelivers⟩ | hcanceled
  · exact hsame
  · exact absurd hdelivers (h _ _)
  · rw [hcanceled.completed] at hcompleted
    cases hcompleted

omit [Storage σ] in
theorem timesCanceled_outline (s : Session σ τ α) (id : WatcherId) :
    s.outline.timesCanceled id = (s.heardBy id).countP Ending.isCanceled := by
  rw [Outline.timesCanceled, heardBy_outline, List.countP_eq_length_filter]

section Run

variable {turns : Nat → Turn} {t t' : Nat}

theorem started_play (ho : s.outline.Orderly id watcher) (hle : t ≤ t')
    (h : ((s.play client turns t).watcherState id).started = true) :
    ((s.play client turns t').watcherState id).started = true := by
  induction hle with
  | refl => exact h
  | @step u _ ih =>
    obtain ⟨before, hbefore, -⟩ := orderly_play client ho turns u
    obtain ⟨after, hafter, hturned⟩ := turned_turn client hbefore (turns u)
    rw [watcherState_of_orderly hbefore] at ih
    exact (congrArg WatcherState.started (watcherState_of_orderly hafter)).trans
      (hturned.started ih)

theorem passed_play (ho : s.outline.Orderly id watcher) (hle : t ≤ t')
    (h : (s.play client turns t).Passed id generation) :
    (s.play client turns t').Passed id generation := by
  induction hle with
  | refl => exact h
  | @step u _ ih =>
    obtain ⟨before, hbefore, -⟩ := orderly_play client ho turns u
    exact ih.passed_turn hbefore (turns u)

theorem lastDelivered_play (ho : s.outline.Orderly id watcher) (hle : t ≤ t')
    (h : ∀ u, t ≤ u → u < t' → ∀ generation ending,
      ¬ (s.play client turns u).Delivers client watcher.decoder id (turns u) generation ending) :
    ((s.play client turns t').watcherState id).lastDelivered =
      ((s.play client turns t).watcherState id).lastDelivered := by
  induction hle with
  | refl => rfl
  | @step u hle ih =>
    obtain ⟨before, hbefore, hdecoder⟩ := orderly_play client ho turns u
    have hnot := h u hle (Nat.lt_succ_self u)
    rw [← hdecoder] at hnot
    refine (lastDelivered_turn hbefore hnot).trans (ih fun v hv hvu => ?_)
    exact h v hv (Nat.lt_succ_of_lt hvu)

/-- A canceled watcher stays canceled, begins no fetch, and delivers nothing. -/
theorem rests_play (ho : s.outline.Orderly id watcher) (hle : t ≤ t')
    (h : ((s.play client turns t).watcherState id).canceled = true) :
    ((s.play client turns t').watcherState id).canceled = true ∧
      ((s.play client turns t').watcherState id).generation =
        ((s.play client turns t).watcherState id).generation ∧
      ((s.play client turns t').unfinished id).Subperm ((s.play client turns t).unfinished id) ∧
      ((s.play client turns t').heardBy id = (s.play client turns t).heardBy id ∨
        ((s.play client turns t).watcherState id).started = false ∧
          (s.play client turns t').heardBy id =
            (s.play client turns t).heardBy id ++ [.error .canceled]) := by
  induction hle with
  | refl => exact ⟨h, rfl, List.Subperm.refl _, .inl rfl⟩
  | @step u hle ih =>
    obtain ⟨hcanceled, hgeneration, hfetches, hheard⟩ := ih
    obtain ⟨before, hbefore, -⟩ := orderly_play client ho turns u
    obtain ⟨after, hafter, hturned⟩ := turned_turn client hbefore (turns u)
    rw [watcherState_of_orderly hbefore] at hcanceled hgeneration
    obtain ⟨hstays, hnone, hfewer, htold⟩ := hturned.rests hcanceled
    rw [heardBy_outline, heardBy_outline] at htold
    change ((Session.turn client _ _).watcherState id).canceled = true ∧
      ((Session.turn client _ _).watcherState id).generation = _ ∧ _
    rw [watcherState_of_orderly hafter]
    refine ⟨hstays, hnone.trans hgeneration, (Multiset.coe_le.mp hfewer).trans hfetches, ?_⟩
    rcases htold with hsame | ⟨hunstarted, hcancellation⟩
    · exact hheard.imp hsame.trans fun hlate => ⟨hlate.1, hsame.trans hlate.2⟩
    · have hnever : ((s.play client turns t).watcherState id).started = false := by
        by_contra hstarted
        rw [Bool.not_eq_false] at hstarted
        have hlater := started_play ho hle hstarted
        rw [watcherState_of_orderly hbefore, hunstarted] at hlater
        cases hlater
      -- a watcher that is not started has not been told
      have huntold := hbefore.untold (.inr hunstarted)
      rw [timesCanceled_outline] at huntold
      refine .inr ⟨hnever, ?_⟩
      rcases hheard with hheard | ⟨-, hheard⟩
      · rw [hheard] at hcancellation
        exact hcancellation
      · rw [hheard, List.countP_append] at huntold
        exact absurd huntold (Nat.succ_ne_zero _)

/-- Whatever turns are taken, a watcher that was new keeps its guarantees. -/
theorem watched_play (client : Client τ) (hnew : s.IsNew id watcher) (turns : Nat → Turn) :
    Watched client watcher.decoder id (s.play client turns) turns := by
  have ho := hnew.orderly
  have horderly := orderly_play client ho turns
  constructor
  case told =>
    intro t
    obtain ⟨before, hbefore, hdecoder⟩ := horderly t
    rw [← hdecoder]
    exact heardBy_turn client hbefore (turns t)
  case newest =>
    intro t generation ending hdelivers
    obtain ⟨before, hbefore, hdecoder⟩ := horderly t
    rw [← hdecoder] at hdelivers
    obtain ⟨hlive, hnewest, hout, hending, -⟩ := hdelivers.newest hbefore
    rw [watcherState_of_orderly hbefore]
    refine ⟨hlive, hnewest, hout, fun fetch hfetch => ?_, Ending.isCanceled_decode hending _⟩
    rw [← hnewest]
    exact hbefore.bounded fetch hfetch
  case superseded =>
    intro t generation ending hcompleted hdropped
    obtain ⟨before, hbefore, -⟩ := horderly t
    rw [watcherState_of_orderly hbefore] at hdropped
    rcases heardBy_turn client hbefore (turns t) with
      hsame | ⟨generation', ending', hdelivers⟩ | hcancellation
    · exact hsame
    · obtain ⟨hlive, hnewest, -⟩ := hdelivers.newest hbefore
      cases hcompleted.symm.trans hdelivers.completed
      rcases hdropped with hcanceled | hne
      · rw [hlive] at hcanceled
        cases hcanceled
      · exact absurd hnewest hne
    · rw [hcancellation.completed] at hcompleted
      cases hcompleted
  case numbered =>
    intro t
    obtain ⟨before, hbefore, -⟩ := horderly t
    obtain ⟨after, -, hturned⟩ := turned_turn client hbefore (turns t)
    rw [watcherState_of_orderly hbefore]
    exact ⟨hbefore.nodup, hturned.newer.2⟩
  case ordered =>
    intro t t' generation generation' ending ending' hlt hfirst hsecond
    obtain ⟨before, hbefore, hdecoder⟩ := horderly t
    obtain ⟨before', hbefore', hdecoder'⟩ := horderly t'
    rw [← hdecoder] at hfirst
    rw [← hdecoder'] at hsecond
    obtain ⟨hle, hnone⟩ := passed_play ho (Nat.succ_le_of_lt hlt) (hfirst.after hbefore).1
    obtain ⟨-, hnewest, ⟨token, hout⟩, -⟩ := hsecond.newest hbefore'
    rw [watcherState_of_orderly hbefore', hnewest] at hle
    exact Nat.lt_of_le_of_ne hle (hnone _ hout).symm
  case distinct =>
    intro t t' generation generation' response response' hlt hfirst hsecond hbetween
    obtain ⟨before, hbefore, hdecoder⟩ := horderly t
    obtain ⟨before', hbefore', hdecoder'⟩ := horderly t'
    have hkept := lastDelivered_play ho (Nat.succ_le_of_lt hlt) fun u hu hut' =>
      hbetween u hu hut'
    rw [← hdecoder] at hfirst
    rw [← hdecoder'] at hsecond
    have hlast := WatcherState.received_ok (hfirst.newest hbefore).2.2.2.2
    have hnext := WatcherState.received_ok (hsecond.newest hbefore').2.2.2.2
    rw [watcherState_of_orderly hbefore'] at hkept
    have hcompared := hkept.trans ((hfirst.after hbefore).2.trans hlast.2)
    rw [WatcherState.hasDelivered, hcompared] at hnext
    exact hnext.1
  case uncanceled =>
    intro t generation token hout hlive
    obtain ⟨before, hbefore, -⟩ := horderly t
    rw [watcherState_of_orderly hbefore]
    rcases hbefore.obsolete (generation, token) hout with hcanceled | ⟨hactive, hgeneration⟩
    · have hyes := Tokens.isCanceled_iff.mpr ⟨_, List.mem_cons_self, hcanceled⟩
      exact absurd (hlive.symm.trans hyes) Bool.false_ne_true
    · exact ⟨(hbefore.newest token hactive).2.1, hgeneration.symm⟩
  case canceledOnce =>
    intro t
    obtain ⟨before, hbefore, -⟩ := horderly t
    rw [← timesCanceled_outline]
    exact hbefore.once
  case canceledBy =>
    intro t hcancellation
    obtain ⟨before, hbefore, -⟩ := horderly t
    obtain ⟨after, -, hturned⟩ := turned_turn client hbefore (turns t)
    rw [hcancellation.completed] at hturned
    have hheard := hcancellation.heard
    rw [← heardBy_outline, ← heardBy_outline] at hheard
    rw [watcherState_of_orderly hbefore]
    refine (hturned.of_tellsCanceled hheard).imp_left ?_
    rintro ⟨hturn, hlive, hactive⟩
    obtain ⟨token, hactive⟩ := Option.isSome_iff_exists.mp hactive
    exact ⟨hturn, hlive, token, (hbefore.newest token hactive).2.2⟩
  case canceled =>
    intro t hturn
    obtain ⟨before, hbefore, -⟩ := horderly t
    obtain ⟨after, hafter, hturned⟩ := turned_turn client hbefore (turns t)
    change ((Session.turn client _ _).watcherState id).canceled = true
    rw [watcherState_of_orderly hafter]
    rw [hturn] at hturned
    exact hturned.canceled_of_cancelWatcher
  case rests => exact fun t t' hle h => rests_play ho hle h

end Run

section Probe

private def probeClient : Client Unit :=
  { server := { url := "" }, transport := ⟨fun _ s => ({ result := .error "" }, s)⟩ }

private def probeWatcher : Watcher Json :=
  { options := { operation := { name := "Probe", document := "", id := "probe", selections := [] } }
    decoder := some }

private def probe : Session MemoryContents Unit Json :=
  { store := { resolver := .byTypeAndId, contents := .empty }
    transport := ()
    watchers := [(⟨0⟩, probeWatcher)] }

private def reading (text : String) : Response Json :=
  { data := some (.string text), dependentKeys := KeySet.ofList ["QUERY_ROOT.probe"] }

/-- A notification begins the second fetch, which is superseded at once; the third obtains the same
response as the first, and the fourth is canceled. -/
private def probeTurns (time : Nat) : Turn :=
  [.move (.watch ⟨0⟩), .complete 0 (.ok (reading "high")),
    .notify (KeySet.ofList ["QUERY_ROOT.probe"]), .move (.refetch ⟨0⟩),
    .complete 1 (.ok (reading "high")), .complete 0 (.ok (reading "low")),
    .move (.refetch ⟨0⟩), .move (.cancelWatcher ⟨0⟩)].getD time (.move .rest)

theorem watched_probe :
    probe.IsNew ⟨0⟩ probeWatcher ∧
      Watched probeClient probeWatcher.decoder ⟨0⟩ (probe.play probeClient probeTurns) probeTurns ∧
      (probe.play probeClient probeTurns 8).heardBy ⟨0⟩ =
        [.ok (reading "high"), .error .canceled] := by
  have hnew : probe.IsNew ⟨0⟩ probeWatcher := ⟨rfl, ⟨.cacheFirst, rfl⟩, rfl, rfl⟩
  exact ⟨hnew, watched_play probeClient hnew probeTurns, rfl⟩

end Probe

end GraphClient.Session
