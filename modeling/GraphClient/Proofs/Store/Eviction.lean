import GraphClient.Proofs.Pipeline.CachePolicy
import GraphClient.Proofs.Reading.Loaded

/-!
# What an evicting read removes

A read that evicts gives the response of a plain read. When that is a miss it leaves the store alone;
otherwise it removes the records that the read has loaded and no others, and these are the records
each of which the read could not do without (`lookup_evicting`). The root record is one of them, so
until something is merged no operation with this root can be read.
-/

namespace GraphClient

theorem Assoc.erase_eq_filter {κ α : Type} [DecidableEq κ] (m : Assoc κ α) (key : κ) :
    erase m key = m.filter fun entry => decide (entry.1 ≠ key) := by
  induction m with
  | nil => rfl
  | cons entry m ih =>
    obtain ⟨k, v⟩ := entry
    by_cases h : k = key <;> simp [erase, h, ih]

namespace MemoryContents

theorem load?_remove (contents : MemoryContents) (key : RecordKey) :
    Storage.load? (contents.remove key).2 =
      RecordSource.without (Storage.load? contents) key := by
  funext k
  by_cases h : k = key
  · subst h
    rw [RecordSource.without_self]
    exact Assoc.get?_erase_self _ _
  · rw [RecordSource.without_of_ne _ h]
    exact Assoc.get?_erase_of_ne _ h

/-- Removing several records leaves the others in their order. -/
theorem removeAll_eq (contents : MemoryContents) (keys : List RecordKey) :
    Storage.removeAll contents keys =
      ⟨contents.table.filter fun entry => decide (entry.1 ∉ keys)⟩ := by
  induction keys generalizing contents with
  | nil => simp [Storage.removeAll]
  | cons key keys ih =>
    have hrest := ih (contents.remove key).2
    rw [Storage.removeAll] at hrest ⊢
    refine hrest.trans (congrArg MemoryContents.mk ?_)
    simp [remove, Assoc.erase_eq_filter, List.filter_filter, Bool.and_comm]

theorem load?_removeAll (contents : MemoryContents) (keys : List RecordKey) (key : RecordKey) :
    Storage.load? (Storage.removeAll contents keys) key =
      if key ∈ keys then none else Storage.load? contents key := by
  rw [removeAll_eq]
  refine (Assoc.get?_filter contents.table (fun k => decide (k ∉ keys)) key).trans ?_
  by_cases h : key ∈ keys
  · simp [h]
  · simp only [h, not_false_eq_true, decide_true, if_true, if_false]
    rfl

end MemoryContents

namespace Store

variable {β : Type}

/-- What a store has become by anything but a merge. -/
inductive Unmerged (s : Store MemoryContents β) : Store MemoryContents β → Prop
  | refl : Unmerged s s
  | read {t : Store MemoryContents β} (operation : Operation) (directives : Directives)
      (before : Unmerged s t) : Unmerged s (t.read operation directives).2
  | remove {t : Store MemoryContents β} (key : RecordKey) (before : Unmerged s t) :
      Unmerged s (t.remove key).2
  | clear {t : Store MemoryContents β} (before : Unmerged s t) : Unmerged s t.clear
  | unstored {t : Store MemoryContents β} (records : List Record) {directives : Directives}
      (h : directives.doNotStore = true) (before : Unmerged s t) :
      Unmerged s (t.merge records directives).2
  | subscribe {t : Store MemoryContents β} (dependentKeys : KeySet) (subscriber : β)
      (before : Unmerged s t) : Unmerged s (t.subscribe dependentKeys subscriber).2
  | updateSubscription {t : Store MemoryContents β} (id : SubscriptionId) (dependentKeys : KeySet)
      (before : Unmerged s t) : Unmerged s (t.updateSubscription id dependentKeys).2
  | unsubscribe {t : Store MemoryContents β} (id : SubscriptionId) (before : Unmerged s t) :
      Unmerged s (t.unsubscribe id).2

/-- A read leaves no record that was not there. -/
theorem load?_read_eq_none {t : Store MemoryContents β} {key : RecordKey} (h : t.load? key = none)
    (operation : Operation) (directives : Directives) :
    (t.read operation directives).2.load? key = none := by
  cases hread : t.readOperation operation with
  | error e =>
    rw [read, lookup_of_error hread]
    exact h
  | ok result =>
    rw [read, lookup_of_ok hread, afterRead]
    dsimp only
    split
    · rw [load?, MemoryContents.load?_removeAll]
      split
      · rfl
      · exact h
    · exact h

/-- Nothing but a merge brings a record back. -/
theorem Unmerged.load?_eq_none {s t : Store MemoryContents β} (h : s.Unmerged t) {key : RecordKey}
    (hnone : s.load? key = none) : t.load? key = none := by
  induction h with
  | refl => exact hnone
  | read operation directives _ ih => exact load?_read_eq_none ih operation directives
  | @remove t removed _ ih =>
    refine (congrFun (t.contents.load?_remove removed) key).trans ?_
    rw [RecordSource.without]
    split
    · rfl
    · exact ih
  | clear => rfl
  | unstored records h _ ih =>
    rw [merge, if_pos h]
    exact ih
  | subscribe _ _ _ ih => exact ih
  | @updateSubscription t id dependentKeys _ ih =>
    rw [Store.updateSubscription]
    split <;> exact ih
  | unsubscribe _ _ ih => exact ih

/-- An evicting read of an operation has removed the records of a table. -/
structure Evicted (s : Store MemoryContents β) (operation : Operation) (loaded : RecordTable)
    (after : Store MemoryContents β) : Prop where
  /-- The records are those of the store. -/
  found : ∀ key ∈ Assoc.keys loaded, Assoc.get? loaded key = s.load? key
  /-- The records are those without which a plain read fails. -/
  needed : ∀ key, key ∈ Assoc.keys loaded ↔
    ∃ e, (s.remove key).2.readOperation operation = .error e
  /-- Only the records were removed, and nothing else was changed. -/
  removed : after = { s with
    contents := ⟨s.contents.table.filter fun entry => decide (entry.1 ∉ Assoc.keys loaded)⟩ }
  load : ∀ key, after.load? key = if key ∈ Assoc.keys loaded then none else s.load? key
  /-- Until something is merged, every read with the same root fails. -/
  misses : ∀ t, after.Unmerged t → ∀ other : Operation, other.rootKey = operation.rootKey →
    ∀ directives, (t.read other directives).1 = .cacheMiss

theorem exists_readOperation_eq_error {t : Store MemoryContents β} {operation : Operation}
    (h : t.load? operation.rootKey = none) : ∃ e, t.readOperation operation = .error e := by
  cases hread : t.readOperation operation with
  | error e => exact ⟨e, rfl⟩
  | ok result =>
    obtain ⟨trace, hobject, -, -⟩ := readData_eq_ok_iff.mp hread
    obtain ⟨r, -, -, hroot, -⟩ := Reading.objectOf_eq_ok_iff.mp hobject
    cases h.symm.trans hroot

theorem evicted_afterRead {s : Store MemoryContents β} (hresolver : s.resolver.NeverRedirects)
    {operation : Operation} {result : ReadResult} (h : s.readOperation operation = .ok result)
    {directives : Directives} (hevict : directives.evictAfterRead = true) :
    s.Evicted operation result.records (s.afterRead directives result) := by
  have hload : ∀ key, (s.afterRead directives result).load? key =
      if key ∈ Assoc.keys result.records then none else s.load? key := by
    intro key
    rw [afterRead, if_pos hevict]
    exact s.contents.load?_removeAll _ key
  refine ⟨fun key hkey => ?_, fun key => ?_, ?_, hload, fun t ht other hroot directives => ?_⟩
  · rw [get?_records hresolver h, if_pos hkey]
    rfl
  · rw [mem_records_iff hresolver h, readOperation]
    exact iff_of_eq (congrArg (fun source => ∃ e, readData source s.resolver operation.vars
      operation.rootKey operation.selections = .error e) (s.contents.load?_remove key).symm)
  · rw [afterRead, if_pos hevict, MemoryContents.removeAll_eq]
  · -- the root record was removed
    have hnone : t.load? other.rootKey = none := by
      refine ht.load?_eq_none ?_
      rw [hload, hroot, if_pos (root_mem_records h)]
    obtain ⟨e, he⟩ := exists_readOperation_eq_error hnone
    exact fst_read_of_error he directives

/-- A read that evicts answers as a plain read does. On a miss it leaves the store as it is; on a hit
it removes just the records it has loaded. -/
theorem lookup_evicting {s : Store MemoryContents β} (hresolver : s.resolver.NeverRedirects)
    (operation : Operation) (evicting plain : Directives) (hevict : evicting.evictAfterRead = true)
    (hplain : plain.evictAfterRead = false) :
    (s.lookup operation evicting).1 = (s.lookup operation plain).1 ∧
      (s.lookup operation plain).2 = s ∧
      ((s.lookup operation plain).1 = none → (s.lookup operation evicting).2 = s) ∧
      ∀ response records, (s.lookup operation plain).1 = some (response, records) →
        ∃ result, s.readOperation operation = .ok result ∧ response = responseOf result ∧
          records = Assoc.values result.records ∧
          s.Evicted operation result.records (s.lookup operation evicting).2 := by
  cases hread : s.readOperation operation with
  | error e =>
    rw [lookup_of_error hread, lookup_of_error hread]
    exact ⟨rfl, rfl, fun _ => rfl, nofun⟩
  | ok result =>
    rw [lookup_of_ok hread, lookup_of_ok hread]
    refine ⟨rfl, ?_, nofun, fun response records hsome => ?_⟩
    · rw [afterRead, hplain]
      rfl
    · cases hsome
      exact ⟨result, rfl, rfl, rfl, evicted_afterRead hresolver hread hevict⟩

section Crew

/-- Asks for a droid and its friends, and for the planet of those who are human. -/
private def crewQuery : Operation :=
  { name := "Crew", document := "", id := "crew", selections := [
    .field { responseName := "hero", name := "hero" } (.object [
      .field { responseName := "name", name := "name" } .leaf,
      .fragment ["Human"] [.field { responseName := "planet", name := "planet" } .leaf],
      .field { responseName := "friends", name := "friends" }
        (.list (.object [.field { responseName := "name", name := "name" } .leaf]))])] }

/-- The droid is among its friends, and there is a human whom nobody has asked for. -/
private def crewStore : Store MemoryContents Unit :=
  { resolver := .byTypeAndId, contents := ⟨[
    (.queryRoot, ⟨.queryRoot, [("hero", .reference ⟨"Droid:2001"⟩)]⟩),
    (⟨"Human:1003"⟩, ⟨⟨"Human:1003"⟩, [("name", .scalar (.string "Leia"))]⟩),
    (⟨"Droid:2001"⟩, ⟨⟨"Droid:2001"⟩, [("__typename", .scalar (.string "Droid")),
      ("name", .scalar (.string "R2-D2")),
      ("friends", .list [.reference ⟨"Human:1000"⟩, .scalar .null, .reference ⟨"Droid:2001"⟩])]⟩),
    (⟨"Human:1000"⟩, ⟨⟨"Human:1000"⟩, [("name", .scalar (.string "Luke"))]⟩)]⟩ }

private def evicting : Directives := .ofEntries [("evict-after-read", "true")]

theorem lookup_evicting_crewQuery :
    ∃ result, crewStore.readOperation crewQuery = .ok result ∧
      Assoc.keys result.records = [.queryRoot, ⟨"Droid:2001"⟩, ⟨"Human:1000"⟩] ∧
      crewStore.Evicted crewQuery result.records (crewStore.lookup crewQuery evicting).2 ∧
      Assoc.keys (crewStore.lookup crewQuery evicting).2.contents.table = [⟨"Human:1003"⟩] := by
  obtain ⟨result, hread⟩ : ∃ result, crewStore.readOperation crewQuery = .ok result :=
    exists_eq_ok (by decide)
  have hkeys : Assoc.keys result.records = [.queryRoot, ⟨"Droid:2001"⟩, ⟨"Human:1000"⟩] := by
    have h : (crewStore.readOperation crewQuery).toOption.map (fun r => Assoc.keys r.records) =
        some [.queryRoot, ⟨"Droid:2001"⟩, ⟨"Human:1000"⟩] := by decide
    rw [hread] at h
    exact Option.some.inj h
  obtain ⟨-, -, -, hhit⟩ := lookup_evicting (s := crewStore)
    KeyResolver.neverRedirects_byTypeAndId crewQuery evicting .none (by decide) rfl
  obtain ⟨other, hother, -, -, hevicted⟩ := hhit _ _ (by rw [lookup_of_ok hread])
  rw [hread] at hother
  cases hother
  refine ⟨result, hread, hkeys, hevicted, ?_⟩
  rw [hevicted.removed, hkeys]
  decide

end Crew

end Store

end GraphClient
