import GraphClient.Proofs.Reading.Stops
import GraphClient.Proofs.Store.Fragments

/-!
# Where a read looks at types

The type that decides about fragments is looked at at every stop of a read, without being reported. So
it is reported for a record with fragments only where some stop looks it up as a field: under its own
name or another one, directly or in a fragment that applies. A merge that changes which fragments
apply to such a record reports a change of what the read depends on; without the look-up it need not.
-/

namespace GraphClient

open Reading (Stop Stops)

/-- Whether fragments are tested against the type of the record. -/
def Reading.Stop.TestsFragment (stop : Stop) : Prop :=
  stop.selections.any Selection.isFragment = true

/-- A merge that leaves the type of a record alone leaves it the fragments that apply. -/
theorem Record.KeptOutside.entered_eq {changed : KeySet} {r r' : Record}
    (h : r.KeptOutside changed r') (htype : r.key.fieldKey Json.typenameKey ∉ changed)
    (selections : List Selection) :
    selectionsEntered (Reading.recordTypename? r') [] 0 selections =
      selectionsEntered (Reading.recordTypename? r) [] 0 selections := by
  rw [Reading.recordTypename?_eq (h.field _ htype)]

/-- At every stop of a read, the field key of the type is reported if and only if some stop looks it
up. Where it is reported, a merge that changes which fragments apply there reports a change of what
the read depends on. -/
theorem readData_reports_type {source : RecordSource} {resolver : KeyResolver}
    (hresolver : resolver.NeverRedirects) {vars : Json.Object} {root : RecordKey}
    {selections : List Selection} {result : ReadResult}
    (h : readData source resolver vars root selections = .ok result) {stop : Stop}
    (hstop : Stops ⟨source, resolver, vars⟩ root selections stop) :
    (stop.record.key.fieldKey Json.typenameKey ∈ result.dependentKeys ↔
      ∃ other, Stops ⟨source, resolver, vars⟩ root selections other ∧
        other.LooksUp vars (stop.record.key.fieldKey Json.typenameKey)) ∧
    (stop.record.key.fieldKey Json.typenameKey ∈ result.dependentKeys →
      ∀ contents : MemoryContents, Storage.source contents = source → ∀ records,
        ∃ changed after r', Storage.mergeAll contents records = (.ok changed, after) ∧
          Storage.load? after stop.key = some r' ∧
          (selectionsEntered (Reading.recordTypename? r') [] 0 stop.selections ≠
              selectionsEntered (Reading.recordTypename? stop.record) [] 0 stop.selections →
            changed.intersects result.dependentKeys = true)) := by
  refine ⟨readData_mem_dependentKeys_iff hresolver h, fun hreported contents hcontents records => ?_⟩
  have hloaded : Assoc.get? contents.table stop.key = some stop.record := by
    have hsource := hstop.source
    rwa [← hcontents] at hsource
  obtain ⟨r', hr', hkept⟩ := RecordTable.exists_keptOutside_mergeAll hloaded records
  refine ⟨_, _, r', contents.mergeAll_eq records, hr', fun hdiffer => ?_⟩
  refine KeySet.intersects_iff.mpr ⟨_, ?_, hreported⟩
  by_contra hunchanged
  exact hdiffer (hkept.entered_eq hunchanged stop.selections)

section Hero

private def asked (name : String) : Selection :=
  .field { responseName := name, name := name } .leaf

/-- A hero by its name, and some fields of a droid. -/
private def droidFields (selections : List Selection) : List Selection :=
  [asked "name", .fragment ["Droid"] selections]

private def heroWith (selections : List Selection) : List Selection :=
  [.field { responseName := "hero", name := "hero" } (.object (droidFields selections))]

private def artoo : Record :=
  ⟨⟨"Droid:2001"⟩, [("__typename", .scalar (.string "Droid")), ("name", .scalar (.string "R2-D2")),
    ("primaryFunction", .scalar (.string "Astromech"))]⟩

private def artooContents : MemoryContents :=
  ⟨[(.queryRoot, ⟨.queryRoot, [("hero", .reference artoo.key)]⟩), (artoo.key, artoo)]⟩

private def artooContext : Reading.Context := ⟨Storage.source artooContents, .byTypeAndId, []⟩

/-- The droid turns out to be a human. -/
private def retyped : List Record :=
  [⟨artoo.key, [("__typename", .scalar (.string "Human"))]⟩]

private theorem stops_artoo (selections : List Selection) :
    Stops artooContext .queryRoot (heroWith selections) ⟨artoo.key, artoo, droidFields selections⟩ := by
  have hroot : artooContext.source .queryRoot =
      some ⟨.queryRoot, [("hero", .reference artoo.key)]⟩ := rfl
  refine .onward hroot (mem_selectionsApplying_of_mem List.mem_cons_self _) ?_ .reference (.here rfl)
  rfl

/-- The type has an alias and is asked for in the fragment only. -/
theorem readData_reports_type_aliased :
    let selections := heroWith [.field { responseName := "kind", name := "__typename" } .leaf]
    ∃ result changed after, KeyResolver.byTypeAndId.NeverRedirects ∧
      readData (Storage.source artooContents) .byTypeAndId [] .queryRoot selections = .ok result ∧
      "Droid:2001.__typename" ∈ result.dependentKeys ∧
      Storage.mergeAll artooContents retyped = (.ok changed, after) ∧
      changed.intersects result.dependentKeys = true := by
  intro selections
  obtain ⟨result, hresult⟩ : ∃ result,
      readData (Storage.source artooContents) .byTypeAndId [] .queryRoot selections = .ok result :=
    ⟨_, rfl⟩
  have hstop := stops_artoo [.field { responseName := "kind", name := "__typename" } .leaf]
  obtain ⟨hreported, hmerge⟩ :=
    readData_reports_type KeyResolver.neverRedirects_byTypeAndId hresult hstop
  have htype := hreported.mpr ⟨_, hstop, ⟨_, List.mem_cons_of_mem _ List.mem_cons_self, rfl⟩⟩
  obtain ⟨changed, after, r', hmerged, hr', hintersects⟩ := hmerge htype artooContents rfl retyped
  refine ⟨result, changed, after, KeyResolver.neverRedirects_byTypeAndId, hresult, htype, hmerged,
    hintersects ?_⟩
  have hhuman : (Storage.load? (Storage.mergeAll artooContents retyped).2 artoo.key).map
      Reading.recordTypename? = some (some "Human") := by decide
  rw [hmerged, hr', Option.map_some, Option.some.injEq] at hhuman
  rw [hhuman]
  decide

/-- The type is not asked for, so the merge that makes the fragment no longer apply reports nothing
that the read depends on. -/
theorem exists_type_not_reported :
    let selections := heroWith [asked "primaryFunction"]
    KeyResolver.byTypeAndId.NeverRedirects ∧
    ∃ result changed after r' again stop, stop.TestsFragment ∧
      readData (Storage.source artooContents) .byTypeAndId [] .queryRoot selections = .ok result ∧
      Stops artooContext .queryRoot selections stop ∧
      stop.record.key.fieldKey "__typename" ∉ result.dependentKeys ∧
      Storage.mergeAll artooContents retyped = (.ok changed, after) ∧
      Storage.load? after stop.key = some r' ∧
      selectionsEntered (Reading.recordTypename? r') [] 0 stop.selections ≠
        selectionsEntered (Reading.recordTypename? stop.record) [] 0 stop.selections ∧
      changed.intersects result.dependentKeys = false ∧
      readData (Storage.source after) .byTypeAndId [] .queryRoot selections = .ok again ∧
      again.data ≠ result.data := by
  refine ⟨KeyResolver.neverRedirects_byTypeAndId, _, _, _, _, _,
    ⟨artoo.key, artoo, droidFields [asked "primaryFunction"]⟩, rfl, rfl, stops_artoo _, ?_, rfl, rfl,
    ?_, ?_, rfl, ?_⟩
  · decide
  · decide
  · decide
  · have hread : [("hero", Json.object [("name", .string "R2-D2")])] ≠ [("hero", .object [
        ("name", .string "R2-D2"), ("primaryFunction", .string "Astromech")])] := by simp
    exact hread

end Hero

end GraphClient
