import GraphClient.Storage.Basic

/-!
# Unbounded contents

`MemoryContents` is a table of records. No record is ever refused.
-/

namespace GraphClient

/-- A table of all records that were stored. -/
structure MemoryContents where
  table : RecordTable := []

namespace MemoryContents

def empty : MemoryContents := ⟨[]⟩

instance : Inhabited MemoryContents := ⟨empty⟩

def remove (contents : MemoryContents) (key : RecordKey) : Bool × MemoryContents :=
  (Assoc.contains contents.table key, ⟨Assoc.erase contents.table key⟩)

/-- Merges a record into the one of its key. -/
def merge (contents : MemoryContents) (r : Record) : KeySet × MemoryContents :=
  let (table, changed) := RecordTable.merge contents.table r
  (changed, ⟨table⟩)

instance : Storage MemoryContents where
  load? contents key := Assoc.get? contents.table key
  merge contents r := ((.ok (contents.merge r).1), (contents.merge r).2)
  remove := remove
  clear _ := empty
  size contents := contents.table.length

/-- Merging several records is merging them into the table. -/
theorem mergeAll_eq (contents : MemoryContents) (rs : List Record) :
    Storage.mergeAll contents rs =
      (.ok (RecordTable.mergeAll contents.table rs).2,
        ⟨(RecordTable.mergeAll contents.table rs).1⟩) := by
  induction rs generalizing contents with
  | nil => rfl
  | cons r rs ih => simp only [Storage.mergeAll, Storage.merge, merge, ih, RecordTable.mergeAll_cons]

end MemoryContents

end GraphClient
