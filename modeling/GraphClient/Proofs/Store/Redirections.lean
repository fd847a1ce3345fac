import GraphClient.Proofs.Reading.Dependencies

/-!
# Reads that arguments redirect

A field such as `hero(id: 2001)` is read from the record that its arguments name, if there is one, and
else from what is stored for the field itself. Whether there is one is not a field of any record, so
it is no part of what a read reports. A record that was found stays whatever is merged, so the report
covers a read that was redirected. It does not cover a read that has looked for a record in vain: once
the record is stored, the same field is read from there (`exists_redirected_by_merge`).

Nothing else goes unreported. A merge whose report is disjoint from that of a read, and which stores
no record for which the read has looked in vain, leaves the read as it is
(`readOperation_merge_of_not_tries`). Such a record is named by the arguments of a field of the
operation, whatever the data is (`Tries.exists_field`).
-/

namespace GraphClient

/-- There is no fragment among the selections. -/
def FragmentFree (selections : List Selection) : Prop := selections.any Selection.isFragment = false

namespace Reading

theorem typeLookedUp_of_fragmentFree (c : Context) {selections : List Selection}
    (h : FragmentFree selections) : TypeLookedUp c selections := by
  intro hfragment
  cases h.symm.trans hfragment

/-- The key that is looked for in vain is the one that the arguments of some field name. -/
theorem Tries.exists_field {c : Context} {shape : Shape} {stored : FieldValue} {key : RecordKey}
    (h : Tries c shape stored key) :
    c.source key = none ∧ ∃ field ∈ shape.allFields, c.resolver.ofArguments field c.vars = some key := by
  induction h with
  | here _ hf hmisses =>
    exact ⟨hmisses.absent, _, (allFields_of_applying hf).1, hmisses.named⟩
  | onward _ hf _ _ ih =>
    obtain ⟨habsent, field, hfield, hnamed⟩ := ih
    exact ⟨habsent, field, (allFields_of_applying hf).2 hfield, hnamed⟩
  | item _ _ ih => exact ih

end Reading

namespace Store

variable {β : Type}

/-- A record that is missing stays so until one is stored under its key. -/
theorem load?_merge_eq_none {s : Store MemoryContents β} {key : RecordKey} (h : s.load? key = none)
    {records : List Record} (hkey : ∀ r ∈ records, r.key ≠ key) (directives : Directives) :
    (s.merge records directives).2.load? key = none := by
  rw [merge]
  split
  · exact h
  · rw [MemoryContents.mergeAll_eq]
    refine Option.not_isSome_iff_eq_none.mp fun hfound => ?_
    rcases (RecordTable.isSome_get?_mergeAll s.contents.table records key).mp hfound with
      hbefore | ⟨r, hr, rfl⟩
    · exact Option.not_isSome_iff_eq_none.mpr h hbefore
    · exact hkey r hr rfl

/-- Reading an operation looks in vain for a record under this key. -/
def Tries (s : Store MemoryContents β) (operation : Operation) (key : RecordKey) : Prop :=
  Reading.Tries ⟨s.load?, s.resolver, operation.vars⟩ (.object operation.selections)
    (.reference operation.rootKey) key

/-- A merge that changes none of the fields a read depends on leaves the read as it is, if it stores
no record for which the read has looked in vain. The merge itself always succeeds. -/
theorem readOperation_merge_of_not_tries (s : Store MemoryContents β) {operation : Operation}
    (hselections : (Shape.object operation.selections).EachSet FragmentFree)
    {result : ReadResult} (hread : s.readOperation operation = .ok result) (records : List Record)
    (directives : Directives) :
    ∃ changed after, s.merge records directives = (.ok changed, after) ∧
      (changed.intersects result.dependentKeys = false →
        (∀ r ∈ records, ¬ s.Tries operation r.key) →
        ∃ again, after.readOperation operation = .ok again ∧
          again.data = result.data ∧ again.dependentKeys = result.dependentKeys) := by
  obtain ⟨changed, after, hmerge, hkept, hsame⟩ := s.merge_eq_ok records directives
  refine ⟨changed, after, hmerge, fun hdisjoint huntried => ?_⟩
  rw [readOperation, hsame]
  refine readData_kept_of_stillMissing hkept
    (hselections.imp fun ss hss => Reading.typeLookedUp_of_fragmentFree _ hss)
    (fun key htries => ?_) hread hdisjoint
  have hmissing := load?_merge_eq_none htries.exists_field.1
    (fun r hr hkey => huntried r hr (by rwa [hkey])) directives
  rwa [hmerge] at hmissing

section Hero

private def heroName : Selection := .field { responseName := "name", name := "name" } .leaf

/-- The name of the hero with an identifier; the hero may be unknown. -/
private def heroById (responseName id : String) : Selection :=
  .field { responseName := responseName, name := "hero",
           arguments := [("id", .literal (.string id))], nullable := true } (.object [heroName])

private def heroesQuery : Operation :=
  { name := "Heroes", document := "", id := "heroes",
    selections := [heroById "first" "2001", heroById "second" "2002"] }

private def droid (id name : String) : Record :=
  ⟨⟨"Droid:" ++ id⟩, [("name", .scalar (.string name))]⟩

/-- One droid is stored, and no answer for either of the fields. -/
private def heroesStore : Store MemoryContents Unit :=
  { resolver := .redirecting "Droid"
    contents := ⟨[(.queryRoot, ⟨.queryRoot, []⟩), (⟨"Droid:2001"⟩, droid "2001" "R2-D2")]⟩ }

/-- The first field is read from the record that it names, the second one has looked for a record in
vain; the merge stores a third droid. -/
theorem readOperation_heroesQuery_merge :
    ∃ result changed after, (Shape.object heroesQuery.selections).EachSet FragmentFree ∧
      heroesStore.readOperation heroesQuery = .ok result ∧
      result.dependentKeys.toList = ["Droid:2001.name", "QUERY_ROOT.hero(\x7b\"id\":\"2002\"\x7d)"] ∧
      heroesStore.Tries heroesQuery ⟨"Droid:2002"⟩ ∧
      ¬ heroesStore.Tries heroesQuery ⟨"Droid:2003"⟩ ∧
      heroesStore.merge [droid "2003" "BB-8"] .none = (.ok changed, after) ∧
      changed.toList = ["Droid:2003.name"] ∧
      ∃ again, after.readOperation heroesQuery = .ok again ∧ again.data = result.data ∧
        again.dependentKeys = result.dependentKeys := by
  obtain ⟨result, hread⟩ : ∃ result, heroesStore.readOperation heroesQuery = .ok result :=
    exists_eq_ok (by decide +kernel)
  have hselections : (Shape.object heroesQuery.selections).EachSet FragmentFree :=
    ⟨rfl, ⟨⟨rfl, trivial, trivial⟩, ⟨rfl, trivial, trivial⟩, trivial⟩⟩
  have hkeys : result.dependentKeys.toList =
      ["Droid:2001.name", "QUERY_ROOT.hero(\x7b\"id\":\"2002\"\x7d)"] := by
    have h : (heroesStore.readOperation heroesQuery).toOption.map (·.dependentKeys.toList) =
        some ["Droid:2001.name", "QUERY_ROOT.hero(\x7b\"id\":\"2002\"\x7d)"] := by decide +kernel
    rw [hread] at h
    exact Option.some.inj h
  have hsecond : heroesStore.Tries heroesQuery ⟨"Droid:2002"⟩ := by
    refine .here (r := ⟨.queryRoot, []⟩) rfl
      (mem_selectionsApplying_of_mem (List.mem_cons_of_mem _ List.mem_cons_self) _) ?_
    exact ⟨rfl, rfl, rfl⟩
  have hthird : ¬ heroesStore.Tries heroesQuery ⟨"Droid:2003"⟩ := by
    intro htries
    obtain ⟨-, field, hfield, hnamed⟩ := htries.exists_field
    have hfields : ∀ field ∈ (Shape.object heroesQuery.selections).allFields,
        heroesStore.resolver.ofArguments field heroesQuery.vars ≠ some ⟨"Droid:2003"⟩ := by
      decide +kernel
    exact hfields field hfield hnamed
  obtain ⟨changed, after, hmerge, hagain⟩ := heroesStore.readOperation_merge_of_not_tries hselections
    hread [droid "2003" "BB-8"] .none
  have hchanged : changed.toList = ["Droid:2003.name"] := by
    have h : (heroesStore.merge [droid "2003" "BB-8"] .none).1.toOption.map KeySet.toList =
        some ["Droid:2003.name"] := by decide +kernel
    rw [hmerge] at h
    exact Option.some.inj h
  refine ⟨result, changed, after, hselections, hread, hkeys, hsecond, hthird, hmerge, hchanged,
    hagain ?_ ?_⟩
  · simp [KeySet.intersects, hchanged, KeySet.mem_def, hkeys]
  · exact List.forall_mem_singleton.mpr hthird

/-- A merge stores a record for which the read has looked in vain. It reports nothing that the read
depends on, and yet other data is read afterwards. -/
theorem exists_redirected_by_merge :
    ∃ result changed after again, (Shape.object heroesQuery.selections).EachSet FragmentFree ∧
      (∀ field vars, heroesStore.resolver.ofArguments field vars =
        KeyResolver.idArgument? "Droid" field vars) ∧
      heroesStore.readOperation heroesQuery = .ok result ∧
      heroesStore.merge [droid "2002" "C-3PO"] .none = (.ok changed, after) ∧
      changed.intersects result.dependentKeys = false ∧
      after.readOperation heroesQuery = .ok again ∧ again.data ≠ result.data := by
  refine ⟨_, _, _, _, ?_, fun _ _ => rfl, rfl, rfl, ?_, rfl, ?_⟩
  · exact ⟨rfl, ⟨⟨rfl, trivial, trivial⟩, ⟨rfl, trivial, trivial⟩, trivial⟩⟩
  · decide +kernel
  · have hread : [("first", Json.object [("name", .string "R2-D2")]),
        ("second", .object [("name", .string "C-3PO")])] ≠
        [("first", Json.object [("name", .string "R2-D2")]), ("second", .null)] := by simp
    exact hread

end Hero

end Store

end GraphClient
