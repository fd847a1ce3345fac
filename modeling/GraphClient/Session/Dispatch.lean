import GraphClient.Pipeline.CacheStage
import GraphClient.Pipeline.ParseStage
import GraphClient.Session.Basic

/-!
# Executions on their way through the pipeline

An execution is polled: it runs until it ends or until its answer is held back. The first poll takes
the request down through the interceptors, the store and the server stage and sends it; a later poll
takes what has arrived up again. A poll of an execution whose token is canceled ends it as canceled
and touches neither the store nor the transport.
-/

namespace GraphClient

inductive Progress where
  | ended (ending : Ending Json)
  | waits (inFlight : InFlight)

namespace Session

variable {σ τ α : Type} [Storage σ]

def outcomeOf : Except String Http.Response → Pipeline.Outcome
  | .ok http => .ok { http := some http }
  | .error reason => .error (.network reason)

omit [Storage σ] in
/-- Takes an outcome up through the interceptors that let its request pass. -/
def rise (s : Session σ τ α) (passed : List Pipeline.Interceptor) (outcome : Pipeline.Outcome) :
    Progress × Session σ τ α :=
  let (top, crossings) := Pipeline.ascend passed outcome
  (.ended (top.map fun reply => reply.response.getD default), s.report (crossings.map .crossed))

/-- Takes the outcome of the stages below through the store, and has the watchers told of what that
changed. -/
def absorb (s : Session σ τ α) (request : Pipeline.Request) (canceled : Bool)
    (outcome : Pipeline.Outcome) : Pipeline.Outcome × Session σ τ α :=
  let (settled, changed, store) := Pipeline.CacheStage.settle s.store request canceled outcome
  (settled, { s with store := store }.publish changed)

/-- Takes what came back from below the store up to the top. -/
def receive (s : Session σ τ α) (token : Token) (request : Pipeline.Request)
    (passed : List Pipeline.Interceptor) (outcome : Pipeline.Outcome) : Progress × Session σ τ α :=
  let parsed := Pipeline.ParseStage.settle s.store.resolver request.operation outcome
  let (settled, s) := s.absorb request (s.tokens.isCanceled token) parsed
  s.rise passed settled

/-- Receives the result of an exchange, unless it is held back. -/
def await (s : Session σ τ α) (inFlight : InFlight) : Progress × Session σ τ α :=
  if s.hasArrived inFlight.exchange then
    s.receive inFlight.execution.token inFlight.request inFlight.passed
      (outcomeOf inFlight.exchange.result)
  else (.waits inFlight, s)

/-- Sends the request of an execution that the store left open. -/
def send (client : Client τ) (s : Session σ τ α) (execution : Execution)
    (request : Pipeline.Request) (passed : List Pipeline.Interceptor) : Progress × Session σ τ α :=
  match Pipeline.ServerStage.httpRequest client.server request with
  | .error failure => s.receive execution.token request passed (.error failure)
  | .ok httpRequest =>
    let (exchange, transport) := client.transport.send httpRequest s.transport
    let s := { s with transport := transport, requests := s.requests ++ [httpRequest] }
    s.await ⟨execution, request, passed, exchange⟩

def descend (client : Client τ) (s : Session σ τ α) (execution : Execution) :
    Progress × Session σ τ α :=
  let descent := Pipeline.descend [] client.interceptors execution.options.request
  let s := s.report (descent.crossings.map .crossed)
  match descent.passage with
  | .answer outcome => s.rise descent.passed outcome
  | .forward request =>
    match Pipeline.CacheStage.lookup s.store request with
    | (some reply, store) => { s with store := store }.rise descent.passed (.ok reply)
    | (none, store) => send client { s with store := store } execution request descent.passed

/-- The first poll of an execution. -/
def dispatch (client : Client τ) (s : Session σ τ α) (execution : Execution) :
    Progress × Session σ τ α :=
  if s.tokens.isCanceled execution.token then (.ended (.error .canceled), s)
  else s.descend client execution

/-- A later poll of an execution. -/
def resume (s : Session σ τ α) (inFlight : InFlight) : Progress × Session σ τ α :=
  if s.tokens.isCanceled inFlight.execution.token then (.ended (.error .canceled), s)
  else s.await inFlight

/-- Stores the data of an operation, and has the watchers told of what changed. -/
def writeAndPublish (s : Session σ τ α) (operation : Operation) (data : Json.Object) :
    Except CacheError KeySet × Session σ τ α :=
  let (result, notification, store) := s.store.writeAndPublish operation data
  (result, { s with store := store }.publish (notification.getD ∅))

/-- A canceled execution ends without touching anything. -/
theorem dispatch_of_canceled (client : Client τ) {s : Session σ τ α} {execution : Execution}
    (h : s.tokens.isCanceled execution.token = true) :
    s.dispatch client execution = (.ended (.error .canceled), s) := by
  simp [dispatch, h]

theorem resume_of_canceled {s : Session σ τ α} {inFlight : InFlight}
    (h : s.tokens.isCanceled inFlight.execution.token = true) :
    s.resume inFlight = (.ended (.error .canceled), s) := by
  simp [resume, h]

end Session

end GraphClient
