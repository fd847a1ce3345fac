import GraphClient.Pipeline.Request
import GraphClient.Store

/-!
# Serving operations from the store

The stage works in two steps around the stages below. `lookup` answers a query from the store where
its control allows that; what it leaves open goes down. `settle` receives how the stages below ended:
it stores the records of a reply, and may answer a query whose network failed from the store.

Only queries are answered from the store. A record that cannot be stored never fails an operation.
-/

namespace GraphClient.Pipeline.CacheStage

variable {σ β : Type} [Storage σ]

/-- The reply of a read, none on a miss. -/
def readReply (s : Store σ β) (request : Request) : Option Reply × Store σ β :=
  match s.lookup request.operation request.directives with
  | (some (response, records), s) =>
    (some { response := some response, records := some records }, s)
  | (none, s) => (none, s)

/-- The reply of the store before the stages below are asked, if it has one. -/
def lookup (s : Store σ β) (request : Request) : Option Reply × Store σ β :=
  if request.operation.isQuery && request.control.readsCacheFirst then
    match readReply s request with
    | (some reply, s) => (some reply, s)
    | (none, s) =>
      if request.control = .cacheOnly then (some { response := some .cacheMiss }, s) else (none, s)
  else (none, s)

/-- Stores the records of a reply, and says which field keys that changed. -/
def storeReply (s : Store σ β) (directives : Directives) (reply : Reply) : KeySet × Store σ β :=
  match reply.records with
  | none | some [] => (∅, s)
  | some records =>
    match s.merge records directives with
    | (.ok changed, s) => (changed, s)
    | (.error _, s) => (∅, s)

/-- The outcome of the stage by that of the stages below, with the field keys that are to be
published. `canceled` says whether the operation has been canceled meanwhile. -/
def settle (s : Store σ β) (request : Request) (canceled : Bool) :
    Outcome → Outcome × KeySet × Store σ β
  | .ok reply =>
    let (changed, s) := storeReply s request.directives reply
    (.ok reply, changed, s)
  | .error .canceled => (.error .canceled, ∅, s)
  | .error failure =>
    if request.operation.isQuery && decide (request.control = .networkFirst) then
      if canceled then (.error .canceled, ∅, s)
      else
        match readReply s request with
        | (some reply, s) => (.ok reply, ∅, s)
        | (none, s) => (.error failure, ∅, s)
    else (.error failure, ∅, s)

/-- What the stages below make of a request, and whether the operation is canceled by then. -/
structure Downstream where
  outcome : Outcome
  canceled : Bool

structure Served (σ β : Type) where
  outcome : Outcome
  changed : KeySet
  store : Store σ β
  forwarded : Bool

/-- Both steps around stages below that do not touch the store. -/
def serve (s : Store σ β) (request : Request) (downstream : Request → Downstream) :
    Served σ β :=
  match lookup s request with
  | (some reply, s) => ⟨.ok reply, ∅, s, false⟩
  | (none, s) =>
    let below := downstream request
    let (outcome, changed, s) := settle s request below.canceled below.outcome
    ⟨outcome, changed, s, true⟩

end GraphClient.Pipeline.CacheStage
