import GraphClient.Response.Envelope
import GraphClient.Session.Basic

/-!
# Watchers in a session

A watcher is made from a query call that need not have been executed. Every fetch cancels the one
before, if that is still out, and is counted as a call of its own.
-/

namespace GraphClient.Session

variable {σ τ α : Type}

def setWatcherState (s : Session σ τ α) (id : WatcherId) (state : WatcherState) : Session σ τ α :=
  match Assoc.get? s.watchers id with
  | none => s
  | some watcher =>
    { s with watchers := Assoc.insert s.watchers id { watcher with state := state } }

/-- Has a watcher fetch, unless it is not started or canceled. -/
def fetch (s : Session σ τ α) (id : WatcherId) (control : CacheControl) : Session σ τ α :=
  match Assoc.get? s.watchers id with
  | none => s
  | some watcher =>
    let (token, tokens) := s.tokens.fresh
    match watcher.state.beginFetch token with
    | none => s
    | some start =>
      let s := { s with tokens := tokens }.setWatcherState id start.state
      let s := match start.superseded with
        | none => s
        | some superseded => s.cancelToken superseded
      s.track.spawn
        (.start ⟨.watch id start.generation, { watcher.options with control := control }, token⟩)

def refetch (s : Session σ τ α) (id : WatcherId) : Session σ τ α :=
  match Assoc.get? s.watchers id with
  | none => s
  | some watcher => s.fetch id watcher.state.refetchControl

/-- Has all watchers that depend on changed field keys fetch again. -/
def notify (s : Session σ τ α) (changed : KeySet) : Session σ τ α :=
  (s.store.notices (some changed)).foldl (fun s notice => s.refetch notice.subscriber) s

def watcher (s : Session σ τ α) (call : Call α) :
    Except Misuse (WatcherId × Session σ τ α) :=
  if call.options.operation.isQuery then
    let (id, tracker) := s.tracker.allocate
    .ok (id, { s with
      tracker := tracker
      watchers := Assoc.insert s.watchers id { options := call.options, decoder := call.decoder } })
  else .error .notAQuery

/-- Replaces the cache control of later fetches of a watcher that was not started. -/
def withRefetchControl (s : Session σ τ α) (id : WatcherId) (control : CacheControl) :
    Except Misuse (Session σ τ α) :=
  match Assoc.get? s.watchers id with
  | none => .ok s
  | some watcher => (watcher.state.withRefetchControl control).map (s.setWatcherState id)

/-- Starts a watcher. One that was canceled before is told so, and does nothing else. -/
def watch (s : Session σ τ α) (id : WatcherId) : Except Misuse (Session σ τ α) :=
  match Assoc.get? s.watchers id with
  | none => .ok s
  | some watcher => do
    let state ← watcher.state.start
    let s := s.setWatcherState id state
    if state.canceled then pure (s.report [.watched id (.error .canceled)])
    else
      let tracker := s.tracker.register watcher.options.operation.name id
      pure ({ s with tracker := tracker }.fetch id watcher.options.control)

def unregister (s : Session σ τ α) (id : WatcherId) (name : String) (started : Bool) :
    Session σ τ α :=
  if started then { s with tracker := s.tracker.unregister name id } else s

/-- Cancels a watcher. Its callback is told if a fetch is still out. -/
def cancelWatcher (s : Session σ τ α) (id : WatcherId) : Session σ τ α :=
  match Assoc.get? s.watchers id with
  | none => s
  | some watcher =>
    match watcher.state.cancel with
    | none => s
    | some canceled =>
      let s := s.setWatcherState id canceled.state
      let s := match canceled.subscription with
        | none => s
        | some subscription => { s with store := (s.store.unsubscribe subscription).2 }
      let s := s.unregister id watcher.options.operation.name canceled.started
      match canceled.inFlight with
      | none => s
      | some token => (s.cancelToken token).report [.watched id (.error .canceled)]

/-- Cancels all registered watchers; calls go on. -/
def close (s : Session σ τ α) : Session σ τ α :=
  s.tracker.allWatchers.foldl (fun s id => s.cancelWatcher id) s

def finishFetch (s : Session σ τ α) (id : WatcherId) (generation : Nat) (ending : Ending Json) :
    Session σ τ α :=
  match Assoc.get? s.watchers id with
  | none => s.release
  | some watcher =>
    let accepted := watcher.state.accept id s.store generation ending
    let s := { s with store := accepted.store }.setWatcherState id accepted.state
    let s := if accepted.delivers then
        s.report [.watched id (ending.bind (Response.decode watcher.decoder))]
      else s
    s.release

end GraphClient.Session
