import GraphClient.Session.Call
import GraphClient.Session.Callback
import GraphClient.Session.Tracker
import GraphClient.Store

/-!
# Watchers

A watcher executes a query again and again: when it is started, when it is asked to, and when a field
changes on which its last response depends. It delivers what comes back to a callback, equal
responses in a row once.

Every function below is one critical section on the state of a watcher. A fetch has a generation;
what comes back of an older generation than the newest, or after the watcher was canceled, is
dropped. A failure makes the next response new again. The subscription of a watcher to the store
exists from its first response until it is canceled.
-/

namespace GraphClient

structure WatcherState where
  started : Bool := false
  canceled : Bool := false
  /-- The cache control of every execution but the first. -/
  refetchControl : CacheControl := .cacheFirst
  /-- The number of fetches so far. -/
  generation : Nat := 0
  /-- The token of the newest fetch, as long as nothing came back of it. -/
  active : Option Token := none
  subscription : Option SubscriptionId := none
  /-- What was delivered last, unless a failure was. -/
  lastDelivered : Option (Response.Content Json) := none

namespace WatcherState

/-- Whether the last delivery was of equal data and errors. -/
def hasDelivered (w : WatcherState) (content : Response.Content Json) : Bool :=
  match w.lastDelivered with
  | none => false
  | some last => last == content

/-- Replaces the cache control of later executions, before the watcher is started. -/
def withRefetchControl (w : WatcherState) (control : CacheControl) : Except Misuse WatcherState :=
  if w.started then .error .alreadyExecuted else .ok { w with refetchControl := control }

/-- Starts a watcher; it may have been canceled before. -/
def start (w : WatcherState) : Except Misuse WatcherState :=
  if w.started then .error .alreadyExecuted else .ok { w with started := true }

/-- What begins with a fetch. -/
structure FetchStart where
  state : WatcherState
  generation : Nat
  /-- The token of the fetch before, if that is still out. -/
  superseded : Option Token

/-- Begins a fetch under a token, unless the watcher is not started or canceled. -/
def beginFetch (w : WatcherState) (token : Token) : Option FetchStart :=
  if !w.started || w.canceled then none
  else some {
    state := { w with generation := w.generation + 1, active := some token }
    generation := w.generation + 1
    superseded := w.active }

structure Cancellation where
  state : WatcherState
  /-- The token of the newest fetch, if that is still out. -/
  inFlight : Option Token
  subscription : Option SubscriptionId
  started : Bool

/-- Cancels a watcher, once. -/
def cancel (w : WatcherState) : Option Cancellation :=
  if w.canceled then none
  else some {
    state := { w with canceled := true, active := none, subscription := none }
    inFlight := w.active
    subscription := w.subscription
    started := w.started }

variable {σ : Type}

/-- Makes the subscription of the watcher depend on these keys; a watcher without one gets one. -/
def trackDependencies (w : WatcherState) (id : WatcherId) (keys : KeySet)
    (store : Store σ WatcherId) : WatcherState × Store σ WatcherId :=
  let renewed (store : Store σ WatcherId) : WatcherState × Store σ WatcherId :=
    let (subscription, store) := store.subscribe keys id
    ({ w with subscription := some subscription }, store)
  match w.subscription with
  | none => renewed store
  | some subscription =>
    match store.updateSubscription subscription keys with
    | (true, store) => (w, store)
    | (false, store) => renewed store

structure Acceptance (σ : Type) where
  state : WatcherState
  store : Store σ WatcherId
  delivers : Bool

/-- Receives what came back of the fetch of a generation. -/
def accept (w : WatcherState) (id : WatcherId) (store : Store σ WatcherId) (generation : Nat)
    (ending : Ending Json) : Acceptance σ :=
  if w.canceled || w.generation != generation then ⟨w, store, false⟩
  else
    let w := { w with active := none }
    match ending with
    | .error .canceled => ⟨w, store, false⟩
    | .error _ => ⟨{ w with lastDelivered := none }, store, true⟩
    | .ok response =>
      let (w, store) := w.trackDependencies id response.dependentKeys store
      if w.hasDelivered response.content then ⟨w, store, false⟩
      else ⟨{ w with lastDelivered := some response.content }, store, true⟩

theorem cancel_of_canceled {w : WatcherState} (h : w.canceled = true) : w.cancel = none := by
  simp [cancel, h]

end WatcherState

/-- A watcher whose data decodes into `α`. -/
structure Watcher (α : Type) where
  options : CallOptions
  decoder : Json → Option α
  state : WatcherState := {}

end GraphClient
