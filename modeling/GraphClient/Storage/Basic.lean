import GraphClient.Normalization
import GraphClient.Reading
import GraphClient.Record.Table

/-!
# What keeps the records

A store works on any type of contents with the five operations of `Storage`. Merging one record may
be refused; what is stored of a refused record is up to the storage. `mergeAll` merges records one
after the other and stops at the first that is refused: the records before it stay merged.
-/

namespace GraphClient

/-- Why records were not written. -/
inductive CacheError where
  | store (key reason : String)
  /-- The data could not be taken apart into records. -/
  | normalization (reason : String)
deriving DecidableEq, Repr

def CacheError.message : CacheError → String
  | store key reason => "record '" ++ key ++ "' could not be stored: " ++ reason
  | normalization reason => "could not normalize response: " ++ reason

def CacheError.ofMismatch (mismatch : ShapeMismatch) : CacheError :=
  .normalization mismatch.message

/-- Contents of type `σ` that hold records. -/
class Storage (σ : Type) where
  load? : σ → RecordKey → Option Record
  /-- Merges a record into the one of its key: the field keys that changed, or why it was refused,
  and the contents afterwards. -/
  merge : σ → Record → Except CacheError KeySet × σ
  /-- Removes the record of a key, and says whether there was one. -/
  remove : σ → RecordKey → Bool × σ
  /-- The contents without any record. -/
  clear : σ → σ
  size : σ → Nat

namespace Storage

variable {σ : Type} [Storage σ]

/-- Merges records up to the first that is refused: all field keys that changed, or that refusal. -/
def mergeAll (contents : σ) : List Record → Except CacheError KeySet × σ
  | [] => (.ok ∅, contents)
  | r :: rs =>
    match merge contents r with
    | (.error e, contents) => (.error e, contents)
    | (.ok changed, contents) =>
      match mergeAll contents rs with
      | (.error e, contents) => (.error e, contents)
      | (.ok rest, contents) => (.ok (changed ∪ rest), contents)

theorem mergeAll_cons_eq_ok {contents next after : σ} {r : Record} {rs : List Record}
    {changed rest : KeySet} (hr : merge contents r = (.ok changed, next))
    (hrs : mergeAll next rs = (.ok rest, after)) :
    mergeAll contents (r :: rs) = (.ok (changed ∪ rest), after) := by
  rw [mergeAll, hr]
  simp only [hrs]

theorem mergeAll_cons_eq_error {contents after : σ} {r : Record} {rs : List Record}
    {e : CacheError} (hr : merge contents r = (.error e, after)) :
    mergeAll contents (r :: rs) = (.error e, after) := by
  rw [mergeAll, hr]

theorem mergeAll_cons_eq_error_of_rest {contents next after : σ} {r : Record} {rs : List Record}
    {changed : KeySet} {e : CacheError} (hr : merge contents r = (.ok changed, next))
    (hrs : mergeAll next rs = (.error e, after)) :
    mergeAll contents (r :: rs) = (.error e, after) := by
  rw [mergeAll, hr]
  simp only [hrs]

/-- Removes the records of several keys. -/
def removeAll (contents : σ) (keys : List RecordKey) : σ :=
  keys.foldl (fun contents key => (remove contents key).2) contents

def source (contents : σ) : RecordSource := load? contents

end Storage

end GraphClient
