import GraphClient.Storage.Memory

/-!
# Contents that refuse a record

`GuardedContents` is unbounded, but refuses the record of one key and stores nothing of it.
-/

namespace GraphClient

/-- A table of records that never holds one of the refused key. -/
structure GuardedContents where
  refused : RecordKey
  contents : MemoryContents := .empty

namespace GuardedContents

/-- Merges a record, unless its key is the refused one. -/
def merge (guarded : GuardedContents) (r : Record) : Except CacheError KeySet × GuardedContents :=
  if r.key = guarded.refused then (.error (.store r.key.text "refused"), guarded)
  else
    let (changed, contents) := guarded.contents.merge r
    (.ok changed, { guarded with contents := contents })

instance : Storage GuardedContents where
  load? guarded key := Storage.load? guarded.contents key
  merge := merge
  remove guarded key :=
    let (found, contents) := guarded.contents.remove key
    (found, { guarded with contents := contents })
  clear guarded := { guarded with contents := .empty }
  size guarded := Storage.size guarded.contents

end GuardedContents

end GraphClient
