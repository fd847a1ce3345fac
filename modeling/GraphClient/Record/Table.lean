import GraphClient.Record.Basic

/-!
# Tables of records

A `RecordTable` holds records under their keys, in the order in which the keys were first stored.
Merging a record into a table merges it into the record of its key, or stores it when there is none,
and reports the field keys that are new or changed.
-/

namespace GraphClient

/-- Records under their keys. -/
abbrev RecordTable := Assoc RecordKey Record

namespace RecordTable

/-- Merges a record into the one of its key. -/
def merge (table : RecordTable) (r : Record) : RecordTable × KeySet :=
  match Assoc.get? table r.key with
  | some existing =>
    let (merged, changed) := existing.mergeWith r
    (Assoc.insert table r.key merged, changed)
  | none => (Assoc.insert table r.key r, r.fieldKeys)

/-- Merges records one after the other and unites what changed. -/
def mergeAll (table : RecordTable) : List Record → RecordTable × KeySet
  | [] => (table, ∅)
  | r :: rs =>
    let (table, changed) := merge table r
    let (table, rest) := mergeAll table rs
    (table, changed ∪ rest)

/-- The table of a list of records, records of one key merged. -/
def ofRecords (records : List Record) : RecordTable := (mergeAll [] records).1

/-- Every record is stored under its own key. -/
def KeyedByRecord (table : RecordTable) : Prop :=
  ∀ key r, Assoc.get? table key = some r → r.key = key

@[simp] theorem mergeAll_nil (table : RecordTable) : mergeAll table [] = (table, ∅) := rfl

theorem mergeAll_cons (table : RecordTable) (r : Record) (rs : List Record) :
    mergeAll table (r :: rs) =
      ((mergeAll (merge table r).1 rs).1, (merge table r).2 ∪ (mergeAll (merge table r).1 rs).2) :=
  rfl

theorem get?_merge_of_ne (table : RecordTable) {r : Record} {key : RecordKey} (h : key ≠ r.key) :
    Assoc.get? (merge table r).1 key = Assoc.get? table key := by
  simp only [merge]
  split <;> simp [Assoc.get?_insert_of_ne _ _ h]

theorem get?_merge_self (table : RecordTable) (r : Record) :
    Assoc.get? (merge table r).1 r.key =
      some (match Assoc.get? table r.key with
        | some existing => (existing.mergeWith r).1
        | none => r) := by
  simp only [merge]
  split <;> simp_all

theorem keyedByRecord_merge {table : RecordTable} (h : KeyedByRecord table) (r : Record) :
    KeyedByRecord (merge table r).1 := by
  intro key stored hstored
  by_cases hkey : key = r.key
  · subst hkey
    rw [get?_merge_self, Option.some.injEq] at hstored
    subst hstored
    split
    · next existing hexisting => simp [h _ _ hexisting]
    · rfl
  · exact h key stored (by rwa [get?_merge_of_ne table hkey] at hstored)

theorem keyedByRecord_mergeAll {table : RecordTable} (h : KeyedByRecord table) (rs : List Record) :
    KeyedByRecord (mergeAll table rs).1 := by
  induction rs generalizing table with
  | nil => exact h
  | cons r rs ih => exact ih (keyedByRecord_merge h r)

end RecordTable

end GraphClient
