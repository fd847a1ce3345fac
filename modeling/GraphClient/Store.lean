import GraphClient.Operation
import GraphClient.Policy.Directive
import GraphClient.Response.Basic
import GraphClient.Storage.Basic

/-!
# The store

A `Store` holds the records of all responses and the subscriptions of those who depend on them. It is
generic in the type `σ` of its contents and in the type `β` of what a subscription belongs to.

Every operation is one critical section: it takes a store and returns the store afterwards. Writing
reports the field keys that changed. Publishing them leaves a notification, unless there are none;
`notices` is what it amounts to on the store on which it is carried out, which need not be the store
that was written.
-/

namespace GraphClient

structure SubscriptionId where
  number : Nat
deriving DecidableEq, Repr

structure Subscription (β : Type) where
  dependentKeys : KeySet
  subscriber : β

structure Store (σ β : Type) where
  contents : σ
  resolver : KeyResolver
  subscriptions : Assoc SubscriptionId (Subscription β) := []
  nextSubscription : Nat := 0

namespace Store

variable {σ β : Type} [Storage σ]

def load? (s : Store σ β) (key : RecordKey) : Option Record := Storage.load? s.contents key

def size (s : Store σ β) : Nat := Storage.size s.contents

/-- Reads an operation and leaves the records as they are. -/
def readOperation (s : Store σ β) (operation : Operation) : Except ReadError ReadResult :=
  readData (Storage.load? s.contents) s.resolver operation.vars operation.rootKey
    operation.selections

/-- Reads an operation and removes every record it was read from; a failed read removes none. -/
def readAndEvict (s : Store σ β) (operation : Operation) :
    Except ReadError ReadResult × Store σ β :=
  match s.readOperation operation with
  | .error e => (.error e, s)
  | .ok result =>
    (.ok result, { s with contents := Storage.removeAll s.contents (Assoc.keys result.records) })

/-- Reads an operation, evicting what was read when the directives ask for that. -/
def readDirected (s : Store σ β) (operation : Operation) (directives : Directives) :
    Except ReadError ReadResult × Store σ β :=
  if directives.evictAfterRead then s.readAndEvict operation else (s.readOperation operation, s)

def responseOf (result : ReadResult) : Response Json :=
  { data := some (.object result.data), fromCache := true, dependentKeys := result.dependentKeys }

/-- The response of a read with the records it was read from, none on a miss. -/
def lookup (s : Store σ β) (operation : Operation) (directives : Directives) :
    Option (Response Json × List Record) × Store σ β :=
  match s.readDirected operation directives with
  | (.error _, s) => (none, s)
  | (.ok result, s) => (some (responseOf result, Assoc.values result.records), s)

/-- Reads an operation; a miss is a response without data. -/
def read (s : Store σ β) (operation : Operation) (directives : Directives) :
    Response Json × Store σ β :=
  match s.lookup operation directives with
  | (some (response, _), s) => (response, s)
  | (none, s) => (.cacheMiss, s)

/-- Merges records, unless the directives ask not to store them. -/
def merge (s : Store σ β) (records : List Record) (directives : Directives) :
    Except CacheError KeySet × Store σ β :=
  if directives.doNotStore then (.ok ∅, s)
  else
    let (changed, contents) := Storage.mergeAll s.contents records
    (changed, { s with contents := contents })

/-- Takes the data of an operation apart without storing it. -/
def normalize (s : Store σ β) (operation : Operation) (data : Json.Object) :
    Except ShapeMismatch Normalized :=
  GraphClient.normalize s.resolver operation.vars operation.rootKey operation.selections data

def write (s : Store σ β) (operation : Operation) (data : Json.Object) :
    Except CacheError KeySet × Store σ β :=
  match s.normalize operation data with
  | .error mismatch => (.error (.ofMismatch mismatch), s)
  | .ok normalized => s.merge (Assoc.values normalized.records) .none

/-- The notification that publishing changed field keys leaves; of no keys nobody is told. -/
def notification? (changed : KeySet) : Option KeySet :=
  if changed.isEmpty then none else some changed

/-- Stores the data of an operation and publishes what changed. -/
def writeAndPublish (s : Store σ β) (operation : Operation) (data : Json.Object) :
    Except CacheError KeySet × Option KeySet × Store σ β :=
  match s.write operation data with
  | (.error e, s) => (.error e, none, s)
  | (.ok changed, s) => (.ok changed, notification? changed, s)

/-- Removes the record of a key, and says whether there was one. -/
def remove (s : Store σ β) (key : RecordKey) : Bool × Store σ β :=
  let (found, contents) := Storage.remove s.contents key
  (found, { s with contents := contents })

/-- Removes all records. -/
def clear (s : Store σ β) : Store σ β := { s with contents := Storage.clear s.contents }

omit [Storage σ]

def subscribe (s : Store σ β) (dependentKeys : KeySet) (subscriber : β) :
    SubscriptionId × Store σ β :=
  let id : SubscriptionId := ⟨s.nextSubscription⟩
  (id, { s with
    subscriptions := Assoc.insert s.subscriptions id ⟨dependentKeys, subscriber⟩
    nextSubscription := s.nextSubscription + 1 })

/-- Replaces what a subscription depends on, and says whether there is such a subscription. -/
def updateSubscription (s : Store σ β) (id : SubscriptionId) (dependentKeys : KeySet) :
    Bool × Store σ β :=
  match Assoc.get? s.subscriptions id with
  | none => (false, s)
  | some subscription =>
    (true, { s with
      subscriptions :=
        Assoc.insert s.subscriptions id { subscription with dependentKeys := dependentKeys } })

/-- Ends a subscription, and says whether there was one. -/
def unsubscribe (s : Store σ β) (id : SubscriptionId) : Bool × Store σ β :=
  (Assoc.contains s.subscriptions id,
    { s with subscriptions := Assoc.erase s.subscriptions id })

structure Notice (β : Type) where
  subscription : SubscriptionId
  subscriber : β
  changed : KeySet

/-- The calls that a notification makes, if there is one: those of the subscriptions that depend on
one of its field keys. -/
def notices (s : Store σ β) : Option KeySet → List (Notice β)
  | none => []
  | some changed =>
    (s.subscriptions.filter fun entry => entry.2.dependentKeys.intersects changed).map
      fun entry => ⟨entry.1, entry.2.subscriber, changed⟩

@[simp] theorem notification?_empty : notification? ∅ = none := rfl

end Store

end GraphClient
