import GraphClient.Duration
import GraphClient.Storage.Memory

/-!
# Bounded contents

An `EvictionPolicy` bounds the number of records and how long they are kept. `BoundedContents` are
contents below their bounds: no record is ever given up for another one or for its age. Contents
that can keep nothing, because the capacity or a duration is zero, never hold a record, and every
merge reports all fields of its record as changed.

Unlike unbounded contents, a merge that changes nothing stores nothing, so a record without fields
is never stored.
-/

namespace GraphClient

structure EvictionPolicy where
  /-- How many records are kept at most. -/
  maxEntries : Nat
  /-- How long after it was last written a record is evicted. -/
  expireAfterWrite : Option Duration := none
  /-- How long after it was last read or written a record is evicted. -/
  expireAfterAccess : Option Duration := none
deriving DecidableEq, Repr

namespace EvictionPolicy

/-- Whether the bounds let anything be kept. -/
def keepsRecords (policy : EvictionPolicy) : Bool :=
  policy.maxEntries != 0
    && !policy.expireAfterWrite.any Duration.isZero
    && !policy.expireAfterAccess.any Duration.isZero

end EvictionPolicy

structure BoundedContents where
  policy : EvictionPolicy
  table : RecordTable := []

namespace BoundedContents

def load? (contents : BoundedContents) (key : RecordKey) : Option Record :=
  if contents.policy.keepsRecords then Assoc.get? contents.table key else none

/-- The record that merging would store, and what would change. -/
def merged (contents : BoundedContents) (r : Record) : Record × KeySet :=
  match contents.load? r.key with
  | some existing => existing.mergeWith r
  | none => (r, r.fieldKeys)

/-- Merges a record into the one of its key, unless that changes nothing. -/
def merge (contents : BoundedContents) (r : Record) : KeySet × BoundedContents :=
  let (stored, changed) := contents.merged r
  if changed.isEmpty then (changed, contents)
  else (changed, { contents with table := Assoc.insert contents.table r.key stored })

def remove (contents : BoundedContents) (key : RecordKey) : Bool × BoundedContents :=
  ((contents.load? key).isSome, { contents with table := Assoc.erase contents.table key })

def size (contents : BoundedContents) : Nat :=
  if contents.policy.keepsRecords then contents.table.length else 0

instance : Storage BoundedContents where
  load? := load?
  merge contents r := (.ok (contents.merge r).1, (contents.merge r).2)
  remove := remove
  clear contents := { contents with table := [] }
  size := size

end BoundedContents

end GraphClient
