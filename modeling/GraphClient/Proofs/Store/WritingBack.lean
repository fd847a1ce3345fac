import GraphClient.Proofs.Reading.Restoring
import GraphClient.Proofs.Store.Publication

/-!
# Writing back what was read

Contents that are built up under the path resolver keep every reference at the place that it names:
writes put it there, removals and clearing move none (`MemoryContents.ReachableByPath.placed`). So data
that were read from such contents are taken apart into the very fields they were read from, and merging
them changes no field that exists. What is new are the nulls that were read where a nullable field was
absent from a record at which the read stopped (`mergeBack_of_reachable`).
-/

namespace GraphClient

/-- Contents that come about from empty ones by writes under the path resolver, by removals and by
clearing. -/
inductive MemoryContents.ReachableByPath : MemoryContents → Prop
  | empty : ReachableByPath .empty
  | write {β : Type} {s : Store MemoryContents β} (operation : Operation) {data : Json.Object} :
      ReachableByPath s.contents → s.resolver = .byPath → (Json.object data).WellFormed →
      ReachableByPath (s.write operation data).2.contents
  | remove {β : Type} {s : Store MemoryContents β} (key : RecordKey) : ReachableByPath s.contents →
      ReachableByPath (s.remove key).2.contents
  | clear {β : Type} {s : Store MemoryContents β} : ReachableByPath s.contents →
      ReachableByPath s.clear.contents

namespace Store

variable {β : Type}

theorem placed_write {s : Store MemoryContents β} (hs : s.contents.table.Placed)
    (hresolver : s.resolver = .byPath) (operation : Operation) {data : Json.Object}
    (hdata : (Json.object data).WellFormed) :
    (s.write operation data).2.contents.table.Placed := by
  rw [write]
  cases hnormalize : s.normalize operation data with
  | error mismatch => exact hs
  | ok normalized =>
    have hwell := wellFormed_normalize hnormalize hdata
    have hidentifies : s.resolver.NeverIdentifies :=
      hresolver ▸ KeyResolver.neverIdentifies_byPath
    have hplaced := placed_normalize hidentifies hnormalize hdata
    simp only [merge_values_eq]
    exact hs.mergeAll hwell.values (hplaced.values hwell)

end Store

theorem MemoryContents.ReachableByPath.placed {contents : MemoryContents}
    (h : contents.ReachableByPath) : contents.table.WellFormed ∧ contents.table.Placed := by
  induction h with
  | empty => exact ⟨RecordTable.wellFormed_nil, RecordTable.placed_nil⟩
  | write operation _ hresolver hdata ih =>
    exact ⟨Store.wellFormed_write ih.1 operation hdata,
      Store.placed_write ih.2 hresolver operation hdata⟩
  | remove key _ ih => exact ⟨ih.1.erase key, ih.2.erase key⟩
  | clear => exact ⟨RecordTable.wellFormed_nil, RecordTable.placed_nil⟩

open Reading (contextOf Renders Restores Stop Stops)

/-- What was read is taken apart into records that restore those it was read from. -/
theorem exists_normalize_readData {resolver : KeyResolver} (hredirects : resolver.NeverRedirects)
    (hidentifies : resolver.NeverIdentifies) {source : RecordSource} (hsource : source.WellFormed)
    (hplaced : source.Placed) {vars : Json.Object} {root : RecordKey} {selections : List Selection}
    (hfields : AskedPlainly (selectionsAllFields selections)) {result : ReadResult}
    (h : readData source resolver vars root selections = .ok result) :
    ∃ normalized, normalize resolver vars root selections result.data = .ok normalized ∧
      ∀ key name value, normalized.records.fieldAt key name = some value →
        ∃ r, source key = some r ∧
          Restores ⟨resolver, vars⟩ (Stops ⟨source, resolver, vars⟩ root selections) key r name
            value := by
  have hdata := wellFormed_readData hsource h
  obtain ⟨trace, hobject, -, -⟩ := readData_eq_ok_iff.mp h
  have hinside : ∀ typename, ∀ f ∈ selectionsApplying typename selections,
      f.2.allFields ⊆ selectionsAllFields selections := fun _ _ hf => (allFields_of_applying hf).2
  have hrenders : Renders (contextOf ⟨resolver, vars⟩ source) (selectionsAllFields selections)
      (.reference root) (.object result.data) :=
    Reading.renders_objectOf hredirects hsource hfields (List.Subset.refl _)
      (fun typename f hf => Reading.rendersShape hredirects hsource hfields f.2
        (hinside typename f hf)) hobject
  obtain ⟨found, children, hfound, hrestores⟩ :=
    Reading.exists_selectionsFields (c := ⟨resolver, vars⟩) hredirects hplaced hfields
      (List.Subset.refl _) (fun typename f hf => Reading.restoresShape hredirects hidentifies hplaced
        hfields f.2 (hinside typename f hf)) hobject hrenders
  have hpieces : Normalization.pieces ⟨resolver, vars⟩ root selections result.data =
      .ok (Normalization.objectPieces root found children) :=
    bind_eq_ok_iff.mpr ⟨_, hfound, rfl⟩
  refine ⟨_, bind_eq_ok_iff.mpr ⟨_, hpieces, rfl⟩, fun key name value hvalue => ?_⟩
  have hwell := Normalization.wellFormed_pieces hpieces hdata
  have hmerged : RecordTable.fieldAt (RecordTable.mergeAll []
      (Normalization.objectPieces root found children).records).1 key name = some value := hvalue
  rcases RecordTable.exists_of_fieldAt_mergeAll (fun r hr => (hwell r hr).nodup) hmerged with
    hempty | ⟨written, hwritten, rfl, hfield⟩
  · cases hempty
  · obtain ⟨r, hr, hrestored⟩ := hrestores written hwritten
    exact ⟨r, hr, hrestored name value hfield⟩

namespace RecordTable

variable {c : Normalization.Context} {stops : Stop → Prop} {table incoming : RecordTable}

/-- Merging records that restore those of a table changes no field that it has. -/
theorem fieldAt_mergeAll_of_restores (hincoming : incoming.WellFormed)
    (h : ∀ key name value, incoming.fieldAt key name = some value →
      ∃ r, Assoc.get? table key = some r ∧ Restores c stops key r name value)
    {key : RecordKey} {name : String} {value : FieldValue}
    (hvalue : table.fieldAt key name = some value) :
    (table.mergeAll (Assoc.values incoming)).1.fieldAt key name = some value := by
  rw [fieldAt_mergeAll_values table hincoming]
  cases hwritten : incoming.fieldAt key name with
  | none => exact hvalue
  | some written =>
    obtain ⟨r, hr, hrestored⟩ := h key name written hwritten
    have hslot := hvalue
    rw [fieldAt_of_get?_eq_some hr] at hslot
    cases hrestored with
    | held hheld =>
      obtain rfl := Option.some.inj (hslot.symm.trans hheld)
      rw [hvalue]
      exact (FieldValue.afterMerge_eq_or _ _).elim id id
    | new _ _ _ absent => cases absent.symm.trans hslot

/-- What such a merge reports are nullable fields that were looked up where they were absent, and are
now null. -/
theorem exists_absent_of_restores (htable : table.WellFormed) (hincoming : incoming.WellFormed)
    (h : ∀ key name value, incoming.fieldAt key name = some value →
      ∃ r, Assoc.get? table key = some r ∧ Restores c stops key r name value)
    {k : String} (hk : k ∈ (table.mergeAll (Assoc.values incoming)).2) :
    ∃ stop, stops stop ∧ ∃ f ∈ stop.fields, f.1.nullable = true ∧
      k = stop.key.fieldKey (f.1.cacheKey c.vars) ∧
      table.fieldAt stop.key (f.1.cacheKey c.vars) = none ∧
      (table.mergeAll (Assoc.values incoming)).1.fieldAt stop.key (f.1.cacheKey c.vars) =
        some (.scalar .null) := by
  obtain ⟨key, name, written, hwritten, hdiff, rfl⟩ :=
    (mem_reported_mergeAll_values htable.keyed hincoming).mp hk
  obtain ⟨r, hr, hrestored⟩ := h key name written hwritten
  have hslot := fieldAt_of_get?_eq_some hr name
  cases hrestored with
  | held hheld =>
    have hequal : (some written == some written) = true :=
      FieldValue.beq_refl ((htable.records key r hr).values name written hheld)
    rw [hslot, hheld, hequal] at hdiff
    cases hdiff
  | @new selections f hstop hf nullable absent =>
    refine ⟨⟨key, r, selections⟩, hstop, f, hf, nullable, rfl, hslot.trans absent, ?_⟩
    rw [fieldAt_mergeAll_values table hincoming, hslot, absent, hwritten]
    rfl

end RecordTable

namespace Store

variable {β : Type}

/-- Data that were read from contents built up under the path resolver can be taken apart again.
Merging them back changes no field that exists. What it adds are nulls: nullable fields that the read
has looked up, in a record at which it stopped and to whose type they apply, and that were absent. -/
theorem mergeBack_of_reachable {s : Store MemoryContents β} (hs : s.contents.ReachableByPath)
    (hresolver : s.resolver = .byPath) {operation : Operation}
    (hfields : AskedPlainly (selectionsAllFields operation.selections)) {result : ReadResult}
    (hread : s.readOperation operation = .ok result) :
    ∃ normalized changed after, s.normalize operation result.data = .ok normalized ∧
      s.merge (Assoc.values normalized.records) .none = (.ok changed, after) ∧
      (∀ key name value, s.fieldAt key name = some value → after.fieldAt key name = some value) ∧
      ∀ k ∈ changed, k ∈ result.dependentKeys ∧
        ∃ stop, Stops ⟨s.load?, s.resolver, operation.vars⟩ operation.rootKey operation.selections
            stop ∧
          ∃ f ∈ stop.fields, f.1.nullable = true ∧
            k = stop.key.fieldKey (f.1.cacheKey operation.vars) ∧
            s.fieldAt stop.key (f.1.cacheKey operation.vars) = none ∧
            after.fieldAt stop.key (f.1.cacheKey operation.vars) = some (.scalar .null) := by
  obtain ⟨hwell, hplaced⟩ := hs.placed
  have hsource : RecordSource.WellFormed (Storage.load? s.contents) := hwell.records
  have hsourcePlaced : RecordSource.Placed (Storage.load? s.contents) := fun key r hr name value hv =>
    hplaced key name value ((RecordTable.fieldAt_of_get?_eq_some hr name).trans hv)
  have hredirects : s.resolver.NeverRedirects := hresolver ▸ KeyResolver.neverRedirects_byPath
  obtain ⟨normalized, hnormalize, hrestores⟩ := exists_normalize_readData hredirects
    (hresolver ▸ KeyResolver.neverIdentifies_byPath) hsource hsourcePlaced hfields hread
  have hrecords := wellFormed_normalize hnormalize (wellFormed_readData hsource hread)
  refine ⟨normalized, _, _, hnormalize, s.merge_values_eq _, fun key name value hvalue => ?_,
    fun k hk => ?_⟩
  · exact RecordTable.fieldAt_mergeAll_of_restores hrecords hrestores hvalue
  · obtain ⟨stop, hstop, f, hf, nullable, rfl, hwithout, hnull⟩ :=
      RecordTable.exists_absent_of_restores hwell hrecords hrestores hk
    have hkey : stop.record.key = stop.key := hwell.keyed _ _ hstop.source
    refine ⟨?_, stop, hstop, f, hf, nullable, rfl, hwithout, hnull⟩
    exact (readData_mem_dependentKeys_iff hredirects hread).mpr ⟨stop, hstop, f, hf, by rw [hkey]⟩

section Pilots

/-- Asks for a pilot and for those who fly with it. -/
private def pilotQuery : Operation :=
  { name := "Pilot", document := "", id := "pilot", selections := [
    .field { responseName := "pilot", name := "pilot" } (.object [
      .field { responseName := "__typename", name := "__typename" } .leaf,
      .field { responseName := "name", name := "name" } .leaf,
      .field { responseName := "crew", name := "crew" }
        (.list (.object [.field { responseName := "name", name := "name" } .leaf]))])] }

private def pilotData : Json.Object :=
  [("pilot", .object [("__typename", .string "Droid"), ("name", .string "R2-D2"),
    ("crew", .array [.object [("name", .string "Luke")], .null])])]

/-- Asks for more, some of which may be absent, and for some only of a human. -/
private def detailedQuery : Operation :=
  { name := "Detailed", document := "", id := "detailed", selections := [
    .field { responseName := "pilot", name := "pilot" } (.object [
      .field { responseName := "__typename", name := "__typename" } .leaf,
      .fragment ["Droid"] [
        .field { responseName := "function", name := "function", nullable := true } .leaf],
      .fragment ["Human"] [
        .field { responseName := "height", name := "height", nullable := true } .leaf]]),
    .field { responseName := "pilot", name := "pilot" } (.object [
      .field { responseName := "crew", name := "crew" } (.list (.object [
        .field { responseName := "name", name := "name" } .leaf,
        .field { responseName := "height", name := "height", nullable := true } .leaf]))])] }

private def pilotStore : Store MemoryContents Unit :=
  (({ resolver := .byPath, contents := .empty } : Store MemoryContents Unit).write pilotQuery
    pilotData).2

theorem mergeBack_of_reachable_detailedQuery :
    ∃ result normalized changed after, pilotStore.readOperation detailedQuery = .ok result ∧
      pilotStore.normalize detailedQuery result.data = .ok normalized ∧
      pilotStore.merge (Assoc.values normalized.records) .none = (.ok changed, after) ∧
      changed.toList = ["QUERY_ROOT.pilot.crew.0.height", "QUERY_ROOT.pilot.function"] ∧
      after.fieldAt ⟨"QUERY_ROOT.pilot"⟩ "name" = some (.scalar (.string "R2-D2")) := by
  have hdata : (Json.object pilotData).WellFormed := by
    simp [pilotData, Json.WellFormed, Json.WellFormedMembers, Json.WellFormedItems, Assoc.keys]
  have hreachable : pilotStore.contents.ReachableByPath := .write pilotQuery .empty rfl hdata
  have hfields : AskedPlainly (selectionsAllFields detailedQuery.selections) := by
    constructor <;> simp [detailedQuery, selectionsAllFields, Selection.allFields, Shape.allFields]
  obtain ⟨result, hread⟩ : ∃ result, pilotStore.readOperation detailedQuery = .ok result :=
    exists_eq_ok (by decide)
  obtain ⟨normalized, changed, after, hnormalize, hmerge, hkept, -⟩ :=
    mergeBack_of_reachable hreachable rfl hfields hread
  refine ⟨result, normalized, changed, after, hread, hnormalize, hmerge, ?_, hkept _ _ _ rfl⟩
  have hchanged : (((pilotStore.readOperation detailedQuery).toOption.bind fun result =>
      (pilotStore.normalize detailedQuery result.data).toOption).bind fun normalized =>
        (pilotStore.merge (Assoc.values normalized.records) .none).1.toOption.map KeySet.toList) =
      some ["QUERY_ROOT.pilot.crew.0.height", "QUERY_ROOT.pilot.function"] := by decide
  rw [hread] at hchanged
  change (Except.toOption (pilotStore.normalize detailedQuery result.data)).bind _ = _ at hchanged
  rw [hnormalize] at hchanged
  change Option.map KeySet.toList
    (Except.toOption (pilotStore.merge (Assoc.values normalized.records) .none).1) = _ at hchanged
  rw [hmerge] at hchanged
  exact Option.some.inj hchanged

end Pilots

end Store

end GraphClient
