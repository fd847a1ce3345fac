import GraphClient.Pipeline.CacheStage
import GraphClient.Pipeline.ParseStage
import GraphClient.Proofs.Normalization.References
import GraphClient.Proofs.Reading.Missing
import GraphClient.Storage.Memory

/-!
# No reference dangles

Contents are filled in two ways: data is written, or the records of a response that was parsed are
merged. Both merge records that are closed in themselves, so contents that were built up from nothing
stay closed, whatever operations, data and resolvers were used. Reads that evict nothing and clearing
keep this up as well; removing single records would not.

A read that never redirects then misses no record but the root of its operation.
-/

namespace GraphClient

open Pipeline

/-- Contents that come about from empty ones by writes, by merges of the records of parsed responses,
by clearing, and by reads that do not evict. -/
inductive MemoryContents.Reachable : MemoryContents → Prop
  | empty : Reachable .empty
  | write {β : Type} {s : Store MemoryContents β} (operation : Operation) (data : Json.Object) :
      Reachable s.contents → Reachable (s.write operation data).2.contents
  | merge {β : Type} {s : Store MemoryContents β} {resolver : KeyResolver} {operation : Operation}
      {http : Http.Response} {reply : Reply} (directives : Directives) : Reachable s.contents →
      ParseStage.settle resolver operation (.ok { http := some http }) = .ok reply →
      Reachable (CacheStage.storeReply s directives reply).2.contents
  | clear {β : Type} {s : Store MemoryContents β} : Reachable s.contents →
      Reachable s.clear.contents
  | read {β : Type} {s : Store MemoryContents β} (operation : Operation) {directives : Directives} :
      Reachable s.contents → directives.evictAfterRead = false →
      Reachable (s.read operation directives).2.contents

namespace Pipeline.ParseStage

/-- The records of a parsed response are closed in themselves. -/
theorem closed_records {resolver : KeyResolver} {operation : Operation} {http : Http.Response}
    {reply : Reply} (h : settle resolver operation (.ok { http := some http }) = .ok reply) :
    ∃ records, reply.records = some records ∧ Record.ClosedList records := by
  obtain ⟨_, hbelow, h⟩ := bind_eq_ok_iff.mp h
  cases hbelow
  obtain ⟨⟨response, records⟩, hparse, heq⟩ := bind_eq_ok_iff.mp h
  cases heq
  refine ⟨records, rfl, ?_⟩
  rw [parseHttp] at hparse
  split at hparse
  · cases hparse
  · obtain ⟨parsed, -, hparse⟩ := bind_eq_ok_iff.mp hparse
    split at hparse
    · next data _ =>
      cases hdata : normalize resolver operation.vars operation.rootKey operation.selections data with
      | error mismatch =>
        rw [hdata] at hparse
        cases hparse
      | ok normalized =>
        rw [hdata] at hparse
        cases hparse
        exact (closed_normalize hdata).values
    · cases hparse
      exact Pieces.closed_empty

end Pipeline.ParseStage

namespace Store

variable {β : Type}

theorem closed_merge {s : Store MemoryContents β} (h : s.contents.table.Closed)
    {records : List Record} (hrecords : Record.ClosedList records) (directives : Directives) :
    (s.merge records directives).2.contents.table.Closed := by
  rw [merge]
  split
  · exact h
  · rw [MemoryContents.mergeAll_eq]
    exact h.mergeAll hrecords

theorem closed_write {s : Store MemoryContents β} (h : s.contents.table.Closed)
    (operation : Operation) (data : Json.Object) :
    (s.write operation data).2.contents.table.Closed := by
  rw [write]
  cases hnormalize : s.normalize operation data with
  | error mismatch => exact h
  | ok normalized => exact closed_merge h (closed_normalize hnormalize).values .none

theorem closed_storeReply {s : Store MemoryContents β} (h : s.contents.table.Closed)
    {records : List Record} (hrecords : Record.ClosedList records) (directives : Directives)
    {reply : Reply} (hreply : reply.records = some records) :
    (CacheStage.storeReply s directives reply).2.contents.table.Closed := by
  have hmerge := closed_merge h hrecords directives
  rw [CacheStage.storeReply, hreply]
  split
  · exact h
  · exact h
  · next others _ heq =>
    cases heq
    rcases hmerged : s.merge records directives with ⟨_ | _, after⟩ <;>
      · rw [hmerged] at hmerge
        exact hmerge

theorem read_of_not_evict {σ : Type} [Storage σ] (s : Store σ β) (operation : Operation)
    {directives : Directives} (h : directives.evictAfterRead = false) :
    (s.read operation directives).2 = s := by
  rw [read, lookup, readDirected, h]
  cases s.readOperation operation <;> rfl

end Store

theorem MemoryContents.Reachable.closed {contents : MemoryContents} (h : contents.Reachable) :
    contents.table.Closed := by
  induction h with
  | empty => exact RecordTable.closed_nil
  | write operation data _ ih => exact Store.closed_write ih operation data
  | merge directives _ hparse ih =>
    obtain ⟨records, hreply, hrecords⟩ := ParseStage.closed_records hparse
    exact Store.closed_storeReply ih hrecords directives hreply
  | clear _ _ => exact RecordTable.closed_nil
  | read operation _ hkeep ih =>
    rw [Store.read_of_not_evict _ operation hkeep]
    exact ih

namespace Store

variable {β : Type}

/-- Every reference of a reachable store leads to a record, every record is stored under its own key,
and a read that never redirects misses no record but the root of its operation. -/
theorem closed_of_reachable {s : Store MemoryContents β} (h : s.contents.Reachable) :
    s.contents.table.Closed ∧
      (s.resolver.NeverRedirects → ∀ operation key,
        s.readOperation operation = .error (.missingRecord key) →
          key = operation.rootKey ∧ s.load? operation.rootKey = none) := by
  have hclosed := h.closed
  refine ⟨hclosed, fun hresolver operation key hread => ?_⟩
  exact readData_eq_missingRecord
    (fun _ _ hr _ hrefers => hclosed.isSome_of_refersTo hr hrefers) hresolver hread

section Cast

private def identified (selections : List Selection) : List Selection :=
  .field { responseName := "__typename", name := "__typename" } .leaf ::
    .field { responseName := "id", name := "id" } .leaf :: selections

private def castQuery : Operation :=
  { name := "Hero", document := "", id := "hero", selections := [
    .field { responseName := "hero", name := "hero" } (.object (identified [
      .field { responseName := "friends", name := "friends" } (.list (.object (identified [])))]))] }

private def reviewMutation : Operation :=
  { kind := .mutation, name := "Review", document := "", id := "review", selections := [
    .field { responseName := "review", name := "review" } .leaf] }

private def entity (typename id : String) (members : Json.Object) : Json :=
  .object (("__typename", .string typename) :: ("id", .string id) :: members)

/-- A droid among whose friends is the droid itself. -/
private def castData : Json.Object :=
  [("hero", entity "Droid" "2001" [
    ("friends", .array [entity "Human" "1000" [], .null, entity "Droid" "2001" []])])]

private def castStore : Store MemoryContents String :=
  (({ resolver := .byTypeAndId, contents := .empty } : Store MemoryContents String).write castQuery
    castData).2

theorem closed_castStore :
    castStore.contents.Reachable ∧ castStore.contents.table.Closed ∧
      Assoc.keys castStore.contents.table =
        [.queryRoot, ⟨"Droid:2001"⟩, ⟨"Human:1000"⟩] ∧
      castStore.readOperation reviewMutation = .error (.missingRecord reviewMutation.rootKey) ∧
      castStore.load? reviewMutation.rootKey = none := by
  have hreachable : castStore.contents.Reachable := .write castQuery castData .empty
  have hread : castStore.readOperation reviewMutation =
      .error (.missingRecord reviewMutation.rootKey) := rfl
  obtain ⟨hclosed, hmissing⟩ := closed_of_reachable hreachable
  exact ⟨hreachable, hclosed, by decide, hread,
    (hmissing KeyResolver.neverRedirects_byTypeAndId reviewMutation _ hread).2⟩

end Cast

end Store

end GraphClient
