import GraphClient.Proofs.Normalization.WellFormed
import GraphClient.Proofs.Record.Merging
import GraphClient.Storage.Memory
import GraphClient.Store

/-!
# What a write reports and publishes

A write takes the data of an operation apart and merges the records into the contents. `Stored` says
what the contents are afterwards, field by field, and that the report names exactly the fields whose
values before and after are unequal. `Notifies` says which subscribers a notification calls: those
of the subscriptions that are live when it is carried out and depend on one of the field keys.

A notification is carried out later than the write, and on the subscriptions of that moment, so the
two are about different stores.
-/

namespace GraphClient

namespace Store

variable {β : Type}

/-- What a store holds for a field of a record. -/
def fieldAt {σ : Type} [Storage σ] (s : Store σ β) (key : RecordKey) (name : String) :
    Option FieldValue :=
  (s.load? key).bind fun r => r.field? name

/-- Records were stored, and the report says which fields they changed. -/
structure Stored (before : Store MemoryContents β) (records : List Record) (changed : KeySet)
    (after : Store MemoryContents β) : Prop where
  written : ∀ r ∈ records, ∀ name value, r.field? name = some value →
    ∃ stored, after.fieldAt r.key name = some stored ∧ (stored == value) = true
  kept : ∀ key name, (∀ r ∈ records, r.key = key → r.field? name = none) →
    after.fieldAt key name = before.fieldAt key name
  loaded : ∀ key, (after.load? key).isSome = true ↔
    (before.load? key).isSome = true ∨ ∃ r ∈ records, r.key = key
  reported : ∀ k, k ∈ changed ↔
    ∃ key name, (before.fieldAt key name == after.fieldAt key name) = false ∧ k = key.fieldKey name
  subscriptions : after.subscriptions = before.subscriptions

/-- A notification calls the subscribers of the live subscriptions that depend on a changed field
key, each once for a subscription and with all the keys. -/
structure Notifies (s : Store MemoryContents β) (notification : Option KeySet) (changed : KeySet) :
    Prop where
  once : ((s.notices notification).map Notice.subscription).Nodup
  called : ∀ notice, notice ∈ s.notices notification ↔
    notice.changed = changed ∧ ∃ keys,
      Assoc.get? s.subscriptions notice.subscription = some ⟨keys, notice.subscriber⟩ ∧
        keys.intersects changed = true
  silent : changed = ∅ → s.notices notification = []

theorem merge_values_eq (s : Store MemoryContents β) (records : RecordTable) :
    s.merge (Assoc.values records) .none =
      (.ok (RecordTable.mergeAll s.contents.table (Assoc.values records)).2,
        { s with contents :=
          ⟨(RecordTable.mergeAll s.contents.table (Assoc.values records)).1⟩ }) := by
  rw [merge, MemoryContents.mergeAll_eq]
  rfl

theorem exists_stored_merge {s : Store MemoryContents β} (hs : s.contents.table.WellFormed)
    {records : RecordTable} (hrecords : records.WellFormed) :
    ∃ changed after, s.merge (Assoc.values records) .none = (.ok changed, after) ∧
      s.Stored (Assoc.values records) changed after := by
  refine ⟨_, _, s.merge_values_eq records, ?_⟩
  have hfield := RecordTable.fieldAt_mergeAll_values s.contents.table hrecords
  constructor
  case written =>
    intro r hr name value hvalue
    have hincoming := (hrecords.fieldAt_of_mem hr name).trans hvalue
    obtain ⟨stored, hstored, hequal⟩ := FieldValue.exists_afterMerge_eq_some
      (s.contents.table.fieldAt r.key name) (hrecords.fieldAt hincoming)
    exact ⟨stored, by rw [← hstored, ← hincoming, ← hfield]; rfl, hequal⟩
  case kept =>
    intro key name hnone
    have hincoming : records.fieldAt key name = none := by
      cases hvalue : records.fieldAt key name with
      | none => rfl
      | some value =>
        obtain ⟨r, hr, hkey, hname⟩ := hrecords.exists_mem_of_fieldAt hvalue
        rw [hnone r hr hkey] at hname
        cases hname
    have hmerged := hfield key name
    rw [hincoming] at hmerged
    exact hmerged
  case loaded => exact RecordTable.isSome_get?_mergeAll s.contents.table (Assoc.values records)
  case reported => exact fun k => RecordTable.mem_changed_mergeAll_values hs hrecords
  case subscriptions => rfl

theorem notifies_notification? {s : Store MemoryContents β}
    (hs : (Assoc.keys s.subscriptions).Nodup) (changed : KeySet) :
    s.Notifies (notification? changed) changed := by
  by_cases hempty : changed = ∅
  · subst hempty
    refine ⟨List.nodup_nil, fun notice => ?_, fun _ => rfl⟩
    constructor
    · intro hnotice
      cases hnotice
    · rintro ⟨-, keys, -, hintersects⟩
      obtain ⟨key, -, hkey⟩ := KeySet.intersects_iff.mp hintersects
      exact absurd hkey (KeySet.not_mem_empty key)
  · have hsome : notification? changed = some changed := by
      rw [notification?, if_neg]
      exact fun h => hempty (KeySet.isEmpty_iff.mp h)
    rw [hsome]
    refine ⟨?_, fun notice => ?_, fun h => absurd h hempty⟩
    · have hsub : ((s.notices (some changed)).map Notice.subscription).Sublist
          (Assoc.keys s.subscriptions) := by
        rw [notices, List.map_map]
        exact (List.filter_sublist).map _
      exact hsub.nodup hs
    · obtain ⟨id, subscriber, told⟩ := notice
      simp only [notices, List.mem_map, List.mem_filter, Notice.mk.injEq,
        Assoc.get?_eq_some_iff_mem hs]
      constructor
      · rintro ⟨⟨_, keys, _⟩, ⟨hmem, hintersects⟩, rfl, rfl, rfl⟩
        exact ⟨rfl, keys, hmem, hintersects⟩
      · rintro ⟨rfl, keys, hmem, hintersects⟩
        exact ⟨_, ⟨hmem, hintersects⟩, rfl, rfl, rfl⟩

/-- Writing well-formed data keeps the contents well formed. -/
theorem wellFormed_write {s : Store MemoryContents β} (hs : s.contents.table.WellFormed)
    (operation : Operation) {data : Json.Object} (hdata : (Json.object data).WellFormed) :
    (s.write operation data).2.contents.table.WellFormed := by
  rw [write]
  cases hnormalize : s.normalize operation data with
  | error mismatch => exact hs
  | ok normalized =>
    have hrecords := wellFormed_normalize hnormalize hdata
    change (s.merge (Assoc.values normalized.records) .none).2.contents.table.WellFormed
    rw [merge_values_eq]
    refine hs.mergeAll fun r hr => ?_
    obtain ⟨⟨key, r⟩, hentry, rfl⟩ := List.mem_map.mp hr
    exact hrecords.records key r (Assoc.get?_eq_some_of_mem hrecords.nodup hentry)

/-- A write of data that cannot be taken apart changes nothing and leaves no notification. Any other
write stores the data, reports exactly what changed, and leaves a notification of exactly that. -/
theorem writeAndPublish_reports_changed {s : Store MemoryContents β}
    (hs : s.contents.table.WellFormed) (operation : Operation) {data : Json.Object}
    (hdata : (Json.object data).WellFormed) :
    match s.normalize operation data with
    | .error mismatch =>
      s.writeAndPublish operation data = (.error (.ofMismatch mismatch), none, s) ∧
        ∀ now : Store MemoryContents β, now.notices none = []
    | .ok normalized =>
      ∃ changed after,
        s.writeAndPublish operation data = (.ok changed, notification? changed, after) ∧
        s.Stored (Assoc.values normalized.records) changed after ∧
        ∀ now : Store MemoryContents β, (Assoc.keys now.subscriptions).Nodup →
          now.Notifies (notification? changed) changed := by
  cases hnormalize : s.normalize operation data with
  | error mismatch =>
    refine ⟨?_, fun _ => rfl⟩
    rw [writeAndPublish, write, hnormalize]
  | ok normalized =>
    obtain ⟨changed, after, hmerge, hstored⟩ :=
      exists_stored_merge hs (wellFormed_normalize hnormalize hdata)
    refine ⟨changed, after, ?_, hstored, fun now hnow => notifies_notification? hnow changed⟩
    rw [writeAndPublish, write, hnormalize]
    simp only [hmerge]

section Planet

private def planetQuery : Operation :=
  { name := "Planet", document := "", id := "planet", selections := [
    .field { responseName := "planet", name := "planet" } (.object [
      .field { responseName := "name", name := "name" } .leaf,
      .field { responseName := "climate", name := "climate" } .leaf])] }

private def planetOf (climate : String) : Json.Object :=
  [("planet", .object [("name", .string "Hoth"), ("climate", .string climate)])]

/-- One subscription depends on the climate, the other on the name. -/
private def planetStore : Store MemoryContents String :=
  { ({ resolver := .byPath, contents := .empty } : Store MemoryContents String).write planetQuery
      (planetOf "frozen") |>.2 with
    subscriptions := [
      (⟨0⟩, ⟨KeySet.ofList ["QUERY_ROOT.planet.climate"], "weather"⟩),
      (⟨1⟩, ⟨KeySet.ofList ["QUERY_ROOT.planet.name"], "atlas"⟩)] }

private theorem wellFormed_planetOf (climate : String) :
    (Json.object (planetOf climate)).WellFormed := by
  simp [planetOf, Json.WellFormed, Json.WellFormedMembers, Assoc.keys]

theorem writeAndPublish_planetQuery_reports :
    ∃ normalized changed after,
      planetStore.normalize planetQuery (planetOf "warm") = .ok normalized ∧
      planetStore.writeAndPublish planetQuery (planetOf "warm") =
        (.ok changed, some changed, after) ∧
      planetStore.Stored (Assoc.values normalized.records) changed after ∧
      after.Notifies (some changed) changed ∧
      changed.toList = ["QUERY_ROOT.planet.climate"] ∧
      (after.notices (some changed)).map Notice.subscriber = ["weather"] := by
  have hstore : planetStore.contents.table.WellFormed :=
    wellFormed_write RecordTable.wellFormed_nil planetQuery (wellFormed_planetOf "frozen")
  have hspec := writeAndPublish_reports_changed hstore planetQuery (wellFormed_planetOf "warm")
  obtain ⟨normalized, hnormalize⟩ : ∃ normalized,
      planetStore.normalize planetQuery (planetOf "warm") = .ok normalized :=
    exists_eq_ok (by decide)
  rw [hnormalize] at hspec
  obtain ⟨changed, after, hwrite, hstored, hnotifies⟩ := hspec
  have hchanged : changed = KeySet.ofList ["QUERY_ROOT.planet.climate"] := by
    have h : (planetStore.writeAndPublish planetQuery (planetOf "warm")).1.toOption =
        some (KeySet.ofList ["QUERY_ROOT.planet.climate"]) := by decide
    rw [hwrite] at h
    exact Option.some.inj h
  subst hchanged
  have hnotices : (after.notices (some (KeySet.ofList ["QUERY_ROOT.planet.climate"]))).map
      Notice.subscriber = ["weather"] := by
    rw [notices, hstored.subscriptions]
    decide
  have hnodup : (Assoc.keys after.subscriptions).Nodup := by
    rw [hstored.subscriptions]
    decide
  exact ⟨normalized, _, after, hnormalize, hwrite, hstored, hnotifies after hnodup, rfl, hnotices⟩

end Planet

end Store

end GraphClient
