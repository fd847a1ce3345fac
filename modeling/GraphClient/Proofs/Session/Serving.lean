import GraphClient.Proofs.Pipeline.CachePolicy
import GraphClient.Session.Dispatch

/-!
# The cache stage in a session

A session runs the two steps of the cache stage apart, since an answer may be held back between them:
`descend` looks an operation up, and `receive` takes what came back through the store and publishes
what that changed (`absorb`). `serve` is both steps around any stages below. It follows the policy of
the stage, and publishes what the stage changes and nothing else (`serve_followsPolicy`).

An execution whose answer is not held back is served in this way by its first poll, by the server
stage, the transport and the parse stage (`descend_eq_serve`). An answer that is held back meets the
store as it is by then, and what it changes is published all the same (`exists_publishes_receive`).
-/

namespace GraphClient.Session

open Pipeline (ParseStage.settle ServerStage.httpRequest)
open Pipeline.CacheStage (AnswersAlone Downstream lookup lookup_of_not_answersAlone settle serveThrough)

/-- What became of a request in a session. -/
structure Served (σ τ α : Type) where
  outcome : Pipeline.Outcome
  session : Session σ τ α
  /-- Whether the stages below were asked. -/
  forwarded : Bool

/-- What changed was published, and a notification of it is ready; nobody is told of no change. But for
the store nothing else is new. -/
structure Publishes {σ τ α : Type} (s : Session σ τ α) (changed : KeySet) (s' : Session σ τ α) :
    Prop where
  published : s'.published = s.published ++ if changed.isEmpty then [] else [changed]
  ready : s'.ready = s.ready ++ if changed.isEmpty then [] else [.notify changed]
  others : s' = { s with store := s'.store, published := s'.published, ready := s'.ready }

variable {σ τ α δ : Type}

theorem publishes_publish (s : Session σ τ α) (store : Store σ WatcherId) (changed : KeySet) :
    s.Publishes changed ({ s with store := store }.publish changed) := by
  rw [publish, Store.notification?]
  by_cases hempty : changed.isEmpty = true
  · rw [if_pos hempty]
    constructor
    case others => rfl
    all_goals
      rw [if_pos hempty, List.append_nil]
  · rw [if_neg hempty]
    constructor
    case others => rfl
    all_goals
      rw [if_neg hempty]
      rfl

variable [Storage σ]

/-- An answer is taken through the store when it is received, also one that was held back, and what
that changes is published before the outcome goes up. -/
theorem exists_publishes_receive (s : Session σ τ α) (token : Token) (request : Pipeline.Request)
    (passed : List Pipeline.Interceptor) (outcome : Pipeline.Outcome) :
    let parsed := ParseStage.settle s.store.resolver request.operation outcome
    let (settled, changed, store) := settle s.store request (s.tokens.isCanceled token) parsed
    ∃ s', s.Publishes changed s' ∧ s'.store = store ∧
      s.receive token request passed outcome = s'.rise passed settled :=
  ⟨_, s.publishes_publish _ _, store_publish _ _, rfl⟩

/-- Both steps around stages below that remember things of their own. -/
def serve (below : Pipeline.Request → δ → Downstream × δ) (memory : δ) (s : Session σ τ α)
    (request : Pipeline.Request) : Served σ τ α × δ :=
  match lookup s.store request with
  | (some reply, store) => (⟨.ok reply, { s with store := store }, false⟩, memory)
  | (none, store) =>
    let (answer, memory) := below request memory
    let (outcome, s) := { s with store := store }.absorb request answer.canceled answer.outcome
    (⟨outcome, s, true⟩, memory)

/-- Of the session only the store matters to the stage, and what it changes is published. -/
theorem serve_eq (below : Pipeline.Request → δ → Downstream × δ) (memory : δ) (s : Session σ τ α)
    (request : Pipeline.Request) :
    s.serve below memory request =
      let (served, remembered) := serveThrough below memory s.store request
      (⟨served.outcome, { s with store := served.store }.publish served.changed,
        served.forwarded⟩, remembered) := by
  rw [serve, serveThrough]
  rcases lookup s.store request with ⟨reply | _, _⟩ <;> rfl

/-- A request that goes down is served by what the session does with the answer when it is there. -/
theorem rise_serve_of_not_answersAlone {s : Session σ τ α} {request : Pipeline.Request}
    (h : ¬ AnswersAlone s.store request) {below : Pipeline.Request → δ → Downstream × δ} {memory : δ}
    {token : Token} {outcome : Pipeline.Outcome}
    (hbelow : (below request memory).1 =
      ⟨ParseStage.settle s.store.resolver request.operation outcome, s.tokens.isCanceled token⟩)
    (passed : List Pipeline.Interceptor) :
    (s.serve below memory request).1.session.rise passed
        (s.serve below memory request).1.outcome =
      s.receive token request passed outcome := by
  rw [serve, lookup_of_not_answersAlone h]
  dsimp only
  rw [hbelow]
  rfl

/-- The policy of the stage, in a session: it is that of the stage on the store, exactly the field keys
that the stage changes are published, and what the session receives from below is served in this way. -/
structure FollowsPolicy (below : Pipeline.Request → δ → Downstream × δ) (memory : δ)
    (s : Session MemoryContents τ α) (request : Pipeline.Request)
    (served : Served MemoryContents τ α) (remembered : δ) : Prop where
  policy : ∃ changed,
    Pipeline.CacheStage.FollowsPolicy below memory s.store request
      ⟨served.outcome, changed, served.session.store, served.forwarded⟩ remembered ∧
    s.Publishes changed served.session
  received : served.forwarded = true → ∀ token passed outcome,
    (below request memory).1 =
      ⟨ParseStage.settle s.store.resolver request.operation outcome, s.tokens.isCanceled token⟩ →
    s.receive token request passed outcome = served.session.rise passed served.outcome

theorem serve_followsPolicy (below : Pipeline.Request → δ → Downstream × δ) (memory : δ)
    (s : Session MemoryContents τ α) (request : Pipeline.Request) :
    FollowsPolicy below memory s request (s.serve below memory request).1
      (s.serve below memory request).2 := by
  have hpolicy := Pipeline.CacheStage.serveThrough_followsPolicy below memory s.store request
  constructor
  case policy =>
    rw [serve_eq]
    generalize serveThrough below memory s.store request = answer at hpolicy ⊢
    obtain ⟨served, remembered⟩ := answer
    refine ⟨served.changed, ?_, s.publishes_publish served.store served.changed⟩
    dsimp only
    rw [store_publish]
    exact hpolicy
  case received =>
    intro hforwarded token passed outcome hbelow
    refine (rise_serve_of_not_answersAlone (fun h => ?_) hbelow passed).symm
    have hanswered := hpolicy.forwards.mpr h
    rw [serve_eq] at hforwarded
    exact Bool.false_ne_true (hanswered.symm.trans hforwarded)

/-- What a session remembers for the stages below its store. -/
def line (s : Session σ τ α) : τ × List Http.Request := (s.transport, s.requests)

def withLine (s : Session σ τ α) (line : τ × List Http.Request) : Session σ τ α :=
  { s with transport := line.1, requests := line.2 }

/-- The stages below the store, with a server that answers at once. -/
def network (client : Client τ) (resolver : KeyResolver) (canceled : Bool)
    (request : Pipeline.Request) (line : τ × List Http.Request) :
    Downstream × (τ × List Http.Request) :=
  let (outcome, line) :=
    match ServerStage.httpRequest client.server request with
    | .error failure => (.error failure, line)
    | .ok httpRequest =>
      let (exchange, transport) := client.transport.send httpRequest line.1
      (outcomeOf exchange.result, transport, line.2 ++ [httpRequest])
  (⟨ParseStage.settle resolver request.operation outcome, canceled⟩, line)

theorem absorb_withLine (s : Session σ τ α) (line : τ × List Http.Request)
    (request : Pipeline.Request) (canceled : Bool) (outcome : Pipeline.Outcome) :
    (s.withLine line).absorb request canceled outcome =
      let (settled, s) := s.absorb request canceled outcome
      (settled, s.withLine line) := by
  rw [absorb, absorb, withLine]
  dsimp only
  rw [publish, publish]
  cases Store.notification? (settle s.store request canceled outcome).2.1 <;> rfl

theorem receive_withLine (s : Session σ τ α) (line : τ × List Http.Request) (token : Token)
    (request : Pipeline.Request) (passed : List Pipeline.Interceptor) (outcome : Pipeline.Outcome) :
    (s.withLine line).receive token request passed outcome =
      let parsed := ParseStage.settle s.store.resolver request.operation outcome
      let (settled, s) := s.absorb request (s.tokens.isCanceled token) parsed
      (s.withLine line).rise passed settled := by
  rw [receive]
  dsimp only
  rw [absorb_withLine]
  rfl

theorem send_eq {client : Client τ} {s : Session σ τ α} (execution : Execution)
    (request : Pipeline.Request) (passed : List Pipeline.Interceptor)
    (harrives : ∀ httpRequest,
      s.hasArrived (client.transport.send httpRequest s.transport).1 = true) :
    send client s execution request passed =
      let (answer, line) := network client s.store.resolver (s.tokens.isCanceled execution.token)
        request s.line
      let (settled, s) := s.absorb request answer.canceled answer.outcome
      (s.withLine line).rise passed settled := by
  rw [send, network]
  cases ServerStage.httpRequest client.server request with
  | error failure => exact s.receive_withLine s.line _ _ _ _
  | ok httpRequest =>
    let line := ((client.transport.send httpRequest s.transport).2, s.requests ++ [httpRequest])
    exact (if_pos (harrives httpRequest)).trans (s.receive_withLine line _ _ _ _)

/-- The first poll of an execution serves the request that its interceptors let pass. -/
theorem descend_eq_serve {client : Client τ} {s : Session σ τ α} {execution : Execution}
    {request : Pipeline.Request} {passed : List Pipeline.Interceptor}
    {crossings : List Pipeline.Crossing}
    (hdescends : Pipeline.descend [] client.interceptors execution.options.request =
      ⟨.forward request, passed, crossings⟩)
    (harrives : ∀ httpRequest,
      s.hasArrived (client.transport.send httpRequest s.transport).1 = true) :
    s.descend client execution =
      let s := s.report (crossings.map .crossed)
      let below := network client s.store.resolver (s.tokens.isCanceled execution.token)
      let (served, line) := s.serve below s.line request
      (served.session.withLine line).rise passed served.outcome := by
  have harrives : ∀ httpRequest, (s.report (crossings.map .crossed)).hasArrived
      (client.transport.send httpRequest (s.report (crossings.map .crossed)).transport).1 = true :=
    harrives
  rw [descend, hdescends]
  dsimp only
  generalize s.report (crossings.map .crossed) = s at harrives ⊢
  rw [serve]
  rcases hlookup : lookup s.store request with ⟨reply | _, store⟩
  · cases Pipeline.CacheStage.lookup_eq_none hlookup
    exact send_eq execution request passed harrives
  · rfl

end GraphClient.Session
