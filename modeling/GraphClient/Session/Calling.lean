import GraphClient.Session.Watching

/-!
# Calls in a session

A call may be awaited or have a callback. Once it has succeeded, it fetches other operations and has
watchers fetch again, as far as its options ask for that; these fetches are canceled with the call,
and nobody is told how they end.
-/

namespace GraphClient.Session

variable {σ τ α : Type}

def setCall (s : Session σ τ α) (id : CallId) (call : Call α) : Session σ τ α :=
  { s with calls := Assoc.insert s.calls id call }

def newCall (s : Session σ τ α) (options : CallOptions) (decoder : Json → Option α) :
    CallId × Session σ τ α :=
  let id : CallId := ⟨s.nextCall⟩
  let (token, tokens) := s.tokens.fresh
  (id, { s with
    tokens := tokens
    nextCall := s.nextCall + 1
    calls := Assoc.insert s.calls id { options := options, decoder := decoder, token := token } })

def query (client : Client τ) (s : Session σ τ α) (operation : Operation)
    (decoder : Json → Option α) : CallId × Session σ τ α :=
  s.newCall { operation := operation, control := client.defaultControl } decoder

/-- A new call of a mutation, which always goes to the network. -/
def mutate (s : Session σ τ α) (operation : Operation) (decoder : Json → Option α) :
    CallId × Session σ τ α :=
  s.newCall { operation := operation, control := .networkOnly } decoder

def duplicate (s : Session σ τ α) (call : Call α) : CallId × Session σ τ α :=
  s.newCall call.options call.decoder

/-- Replaces options of a call that was not started. -/
def override (s : Session σ τ α) (id : CallId) (overrides : CallOverrides) :
    Except Misuse (Session σ τ α) :=
  match Assoc.get? s.calls id with
  | none => .ok s
  | some call => (call.override overrides).map (s.setCall id)

/-- Marks a call as started, and counts it. -/
def startCall (s : Session σ τ α) (id : CallId) : Except Misuse (Session σ τ α) :=
  match Assoc.get? s.calls id with
  | none => .ok s
  | some call => call.start.map fun call => (s.setCall id call).track

/-- Executes a call in a task of its own, which starts it. -/
def execute (s : Session σ τ α) (id : CallId) : Session σ τ α :=
  match Assoc.get? s.calls id with
  | none => s
  | some call => s.spawn (.start ⟨.execute id, call.options, call.token⟩)

def enqueue (s : Session σ τ α) (id : CallId) : Except Misuse (Session σ τ α) :=
  match Assoc.get? s.calls id with
  | none => .ok s
  | some call => do
    let s ← s.startCall id
    pure (s.spawn (.start ⟨.enqueue id, call.options, call.token⟩))

def cancelCall (s : Session σ τ α) (id : CallId) : Session σ τ α :=
  match Assoc.get? s.calls id with
  | none => s
  | some call => { s with tokens := call.cancel s.tokens }.wakeCanceled

/-- Fetches an operation from the network under a token. -/
def refetchOperation (token : Token) (s : Session σ τ α) (operation : Operation) :
    Session σ τ α :=
  s.track.spawn
    (.start ⟨.refetch, { operation := operation, control := .networkOnly }, token⟩)

/-- Starts what a call fetches once it has succeeded. -/
def startRefetches (s : Session σ τ α) (id : CallId) (call : Call α) (options : CallOptions) :
    Session σ τ α :=
  let (token, tokens) := s.tokens.child call.token
  let s := { s with tokens := tokens }
  let s := options.refetchOperations.foldl (refetchOperation token) s
  let s := (s.tracker.activeWatchers options.refetchNames).foldl refetch s
  s.setCall id { call with refetchToken := some token }

/-- Marks a call as completed, and starts what it fetches after a success. The ending is the one for
the caller. -/
def completeCall (s : Session σ τ α) (id : CallId) (options : CallOptions) (ending : Ending Json) :
    Option (Ending α) × Session σ τ α :=
  match Assoc.get? s.calls id with
  | none => (none, s)
  | some call =>
    let call := { call with completed := true }
    let s := s.setCall id call
    let s := if ending.isOk && options.refetches then s.startRefetches id call options else s
    (some (ending.bind (Response.decode call.decoder)), s)

def finishExecute (s : Session σ τ α) (id : CallId) (options : CallOptions)
    (ending : Ending Json) : Session σ τ α :=
  match s.completeCall id options ending with
  | (none, s) => s.release
  | (some ending, s) => s.release.report [.executed id ending]

def finishEnqueue (s : Session σ τ α) (id : CallId) (options : CallOptions)
    (ending : Ending Json) : Session σ τ α :=
  match s.completeCall id options ending with
  | (none, s) => s.release
  | (some ending, s) => (s.report [.delivered id ending]).release

def finish (s : Session σ τ α) (execution : Execution) (ending : Ending Json) : Session σ τ α :=
  match execution.purpose with
  | .execute id => s.finishExecute id execution.options ending
  | .enqueue id => s.finishEnqueue id execution.options ending
  | .refetch => s.release
  | .watch id generation => s.finishFetch id generation ending

end GraphClient.Session
