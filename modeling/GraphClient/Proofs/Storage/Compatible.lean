import GraphClient.Proofs.Storage.Bounding

/-!
# Records that agree merge in any order

Two records of one key agree when they hold equal values for every field that both of them have;
records all of which agree are `Compatible`. Merging such records is not a matter of their order.

What one merge does to a field, `fieldAt_merge_cases` says: it stays, and then every value that came
in is equal to it, or a value came in that is not, and it is taken over. For compatible records the
same two cases are all that a whole list leaves of it (`fieldAt_mergeAll_cases`): once a value was
taken over, every later one is equal. Which case it is, and what is reported as changed
(`mem_changed_mergeAll`), depend on the records of the list and not on their order.

Values are compared up to the order of the keys of JSON objects, and the one that is held stays
where an equal one comes in. So caches that merged the records in different orders hold equal records
(`Record.Equal`), not the same.
-/

namespace GraphClient

namespace Record

/-- Two records with one key and equal fields, listed in any order. -/
structure Equal (r r' : Record) : Prop where
  key : r.key = r'.key
  field : ∀ name, (r.field? name == r'.field? name) = true

/-- Records of one key hold equal values for every field that both have. -/
def Compatible (records : List Record) : Prop :=
  ∀ r ∈ records, ∀ r' ∈ records, r.key = r'.key → ∀ name value value',
    r.field? name = some value → r'.field? name = some value' → (value == value') = true

theorem Compatible.of_cons {r : Record} {rs : List Record} (h : Compatible (r :: rs)) :
    Compatible rs :=
  fun r₁ h₁ r₂ h₂ => h r₁ (List.mem_cons_of_mem r h₁) r₂ (List.mem_cons_of_mem r h₂)

theorem Compatible.perm {records others : List Record} (h : Compatible records)
    (hperm : records.Perm others) : Compatible others :=
  fun r₁ h₁ r₂ h₂ => h r₁ (hperm.mem_iff.mpr h₁) r₂ (hperm.mem_iff.mpr h₂)

theorem Compatible.of_entries {records : List Record}
    (h : ∀ r ∈ records, ∀ r' ∈ records, r.key = r'.key →
      ∀ f ∈ r.fields, ∀ f' ∈ r'.fields, f.1 = f'.1 → (f.2 == f'.2) = true) : Compatible records :=
  fun r hr r' hr' hkey name value value' hvalue hvalue' =>
    h r hr r' hr' hkey (name, value) (Assoc.mem_of_get?_eq_some hvalue) (name, value')
      (Assoc.mem_of_get?_eq_some hvalue') rfl

/-- Merging fields of which the record holds all already. -/
theorem mergeFields_eq_of_held {r : Record} {fields : Assoc String FieldValue}
    (hnodup : (Assoc.keys fields).Nodup)
    (h : ∀ name value, Assoc.get? fields name = some value →
      (r.field? name == some value) = true) : r.mergeFields fields = (r, ∅) := by
  have hchanged : (r.mergeFields fields).2 = ∅ := by
    refine KeySet.ext fun k => ?_
    rw [mem_changed_mergeFields r hnodup]
    constructor
    · rintro ⟨name, value, hvalue, hdiff, -⟩
      rw [h name value hvalue] at hdiff
      cases hdiff
    · exact fun hk => absurd hk (KeySet.not_mem_empty k)
  exact Prod.ext (mergeFields_eq_self hchanged) hchanged

end Record

namespace RecordTable

variable {table : RecordTable}

/-- A merge of a record leaves a field, to which all that came in is equal, or takes over the value
that came in. -/
theorem fieldAt_merge_cases (table : RecordTable) {r : Record}
    (hr : (Assoc.keys r.fields).Nodup) (key : RecordKey) (name : String) :
    (fieldAt (merge table r).1 key name = fieldAt table key name ∧
        ∀ value, r.key = key → r.field? name = some value →
          (fieldAt table key name == some value) = true) ∨
      ∃ value, r.key = key ∧ r.field? name = some value ∧
        (fieldAt table key name == some value) = false ∧
        fieldAt (merge table r).1 key name = some value := by
  by_cases hkey : r.key = key
  · subst hkey
    rw [fieldAt_merge_self table hr]
    cases hvalue : r.field? name with
    | none => exact .inl ⟨rfl, fun _ _ h => nomatch h⟩
    | some value =>
      rw [FieldValue.afterMerge]
      cases heq : fieldAt table r.key name == some value with
      | true =>
        refine .inl ⟨rfl, fun other _ hother => ?_⟩
        rw [← Option.some.inj hother, heq]
      | false => exact .inr ⟨value, rfl, rfl, heq, rfl⟩
  · rw [fieldAt_merge_of_ne table (Ne.symm hkey)]
    exact .inl ⟨rfl, fun _ h => absurd h hkey⟩

/-- Compatible records leave a field, to which all that came in is equal, or one of them has brought
what it now holds. -/
theorem fieldAt_mergeAll_cases (table : RecordTable) {records : List Record}
    (hrecords : ∀ r ∈ records, (Assoc.keys r.fields).Nodup) (hc : Record.Compatible records)
    (key : RecordKey) (name : String) :
    (fieldAt (mergeAll table records).1 key name = fieldAt table key name ∧
        ∀ r ∈ records, ∀ value, r.key = key → r.field? name = some value →
          (fieldAt table key name == some value) = true) ∨
      ∃ r ∈ records, ∃ value, r.key = key ∧ r.field? name = some value ∧
        (fieldAt table key name == some value) = false ∧
        fieldAt (mergeAll table records).1 key name = some value := by
  induction records generalizing table with
  | nil => exact .inl ⟨rfl, fun _ h => nomatch h⟩
  | cons r rs ih =>
    obtain ⟨hr, hrs⟩ := List.forall_mem_cons.mp hrecords
    rw [mergeAll_cons]
    rcases fieldAt_merge_cases table hr key name with
      ⟨hkept, hheld⟩ | ⟨value, hkey, hvalue, hdiff, htaken⟩
    · rcases ih (merge table r).1 hrs hc.of_cons with
        ⟨hrest, hheld'⟩ | ⟨r', hr', value, hkey, hvalue, hdiff, htaken⟩
      · rw [hkept] at hrest hheld'
        exact .inl ⟨hrest, List.forall_mem_cons.mpr ⟨hheld, hheld'⟩⟩
      · rw [hkept] at hdiff
        exact .inr ⟨r', List.mem_cons_of_mem r hr', value, hkey, hvalue, hdiff, htaken⟩
    · refine .inr ⟨r, List.mem_cons_self, value, hkey, hvalue, hdiff, ?_⟩
      rcases ih (merge table r).1 hrs hc.of_cons with
        ⟨hrest, -⟩ | ⟨r', hr', value', hkey', hvalue', hdiff', -⟩
      · rw [hrest, htaken]
      · -- a second value that is taken over would not be equal to the first
        have hagree := hc r List.mem_cons_self r' (List.mem_cons_of_mem r hr')
          (hkey.trans hkey'.symm) name value value' hvalue hvalue'
        rw [htaken, Option.some_beq_some, hagree] at hdiff'
        cases hdiff'

/-- What compatible records change are the fields of which one of them brings a value that was not
held before. -/
theorem mem_changed_mergeAll (ht : table.KeyedByRecord) {records : List Record}
    (hrecords : ∀ r ∈ records, (Assoc.keys r.fields).Nodup) (hc : Record.Compatible records)
    {k : String} :
    k ∈ (mergeAll table records).2 ↔
      ∃ r ∈ records, ∃ name value, r.field? name = some value ∧
        (fieldAt table r.key name == some value) = false ∧ k = r.key.fieldKey name := by
  induction records generalizing table with
  | nil => simp
  | cons r rs ih =>
    obtain ⟨hr, hrs⟩ := List.forall_mem_cons.mp hrecords
    rw [mergeAll_cons, KeySet.mem_union, mem_changed_merge ht hr,
      ih (keyedByRecord_merge ht r) hrs hc.of_cons]
    constructor
    · rintro (⟨name, value, hvalue, hdiff, rfl⟩ | ⟨r', hr', name, value, hvalue, hdiff, rfl⟩)
      · exact ⟨r, List.mem_cons_self, name, value, hvalue, hdiff, rfl⟩
      · refine ⟨r', List.mem_cons_of_mem r hr', name, value, hvalue, ?_, rfl⟩
        rcases fieldAt_merge_cases table hr r'.key name with
          ⟨hkept, -⟩ | ⟨value', hkey, hvalue', -, htaken⟩
        · rwa [hkept] at hdiff
        · have hagree := hc r List.mem_cons_self r' (List.mem_cons_of_mem r hr') hkey name value'
            value hvalue' hvalue
          rw [htaken, Option.some_beq_some, hagree] at hdiff
          cases hdiff
    · rintro ⟨r', hr', name, value, hvalue, hdiff, rfl⟩
      rcases List.mem_cons.mp hr' with rfl | hr'
      · exact .inl ⟨name, value, hvalue, hdiff, rfl⟩
      · rcases fieldAt_merge_cases table hr r'.key name with
          ⟨hkept, -⟩ | ⟨value', hkey, hvalue', hdiff', -⟩
        · exact .inr ⟨r', hr', name, value, hvalue, by rwa [hkept], rfl⟩
        · exact .inl ⟨name, value', hvalue', by rwa [hkey], by rw [hkey]⟩

/-- The order of compatible records makes no difference to what is reported. -/
theorem changed_mergeAll_perm (ht : table.KeyedByRecord) {records others : List Record}
    (hrecords : ∀ r ∈ records, (Assoc.keys r.fields).Nodup) (hc : Record.Compatible records)
    (hperm : records.Perm others) : (mergeAll table records).2 = (mergeAll table others).2 := by
  have hothers : ∀ r ∈ others, (Assoc.keys r.fields).Nodup := fun r hr =>
    hrecords r (hperm.mem_iff.mpr hr)
  refine KeySet.ext fun k => ?_
  rw [mem_changed_mergeAll ht hrecords hc, mem_changed_mergeAll ht hothers (hc.perm hperm)]
  exact exists_congr fun r => and_congr_left' hperm.mem_iff

/-- The order of compatible records makes no difference to the value of a field. -/
theorem fieldAt_mergeAll_perm (ht : table.WellFormed) {records others : List Record}
    (hrecords : ∀ r ∈ records, r.WellFormed) (hc : Record.Compatible records)
    (hperm : records.Perm others) (key : RecordKey) (name : String) :
    (fieldAt (mergeAll table records).1 key name ==
      fieldAt (mergeAll table others).1 key name) = true := by
  have hothers : ∀ r ∈ others, r.WellFormed := fun r hr => hrecords r (hperm.mem_iff.mpr hr)
  rcases fieldAt_mergeAll_cases table (fun r hr => (hrecords r hr).nodup) hc key name
    with ⟨hkept, hheld⟩ | ⟨r, hr, value, hkey, hvalue, hdiff, htaken⟩
  · rcases fieldAt_mergeAll_cases table (fun r hr => (hothers r hr).nodup)
      (hc.perm hperm) key name with ⟨hkept', -⟩ | ⟨r', hr', value', hkey', hvalue', hdiff', -⟩
    · rw [hkept, hkept']
      cases hbefore : fieldAt table key name with
      | none => rfl
      | some before => exact FieldValue.beq_refl (ht.fieldAt hbefore)
    · rw [hheld r' (hperm.mem_iff.mpr hr') value' hkey' hvalue'] at hdiff'
      cases hdiff'
  · rcases fieldAt_mergeAll_cases table (fun r hr => (hothers r hr).nodup)
      (hc.perm hperm) key name with ⟨-, hheld'⟩ | ⟨r', hr', value', hkey', hvalue', -, htaken'⟩
    · rw [hheld' r (hperm.mem_iff.mp hr) value hkey hvalue] at hdiff
      cases hdiff
    · rw [htaken, htaken', Option.some_beq_some]
      exact hc r hr r' (hperm.mem_iff.mpr hr') (hkey.trans hkey'.symm) name value value' hvalue
        hvalue'

/-- The record is stored with all its fields. -/
structure Holds (table : RecordTable) (r : Record) : Prop where
  stored : (Assoc.get? table r.key).isSome = true
  field : ∀ name value, r.field? name = some value →
    (fieldAt table r.key name == some value) = true

theorem merge_eq_of_holds {r : Record} (hr : (Assoc.keys r.fields).Nodup) (h : table.Holds r) :
    merge table r = (table, ∅) := by
  obtain ⟨existing, hexisting⟩ := Option.isSome_iff_exists.mp h.stored
  have hmerged : existing.mergeWith r = (existing, ∅) := by
    refine Record.mergeFields_eq_of_held hr fun name value hvalue => ?_
    rw [← fieldAt_of_get?_eq_some hexisting name]
    exact h.field name value hvalue
  rw [merge, hexisting]
  simp only [hmerged, Assoc.insert_of_get?_eq_some hexisting]

theorem mergeAll_eq_of_holds {records : List Record}
    (hrecords : ∀ r ∈ records, (Assoc.keys r.fields).Nodup)
    (h : ∀ r ∈ records, table.Holds r) : mergeAll table records = (table, ∅) := by
  induction records with
  | nil => rfl
  | cons r rs ih =>
    obtain ⟨hr, hrs⟩ := List.forall_mem_cons.mp hrecords
    obtain ⟨hheld, hrest⟩ := List.forall_mem_cons.mp h
    rw [mergeAll_cons, merge_eq_of_holds hr hheld, ih hrs hrest]
    rfl

/-- After compatible records are merged, the table holds each of them. -/
theorem holds_mergeAll {records : List Record} (hrecords : ∀ r ∈ records, r.WellFormed)
    (hc : Record.Compatible records) {r : Record} (hr : r ∈ records) :
    (mergeAll table records).1.Holds r where
  stored := (isSome_get?_mergeAll table records r.key).mpr (.inr ⟨r, hr, rfl⟩)
  field name value hvalue := by
    rcases fieldAt_mergeAll_cases table (fun r hr => (hrecords r hr).nodup) hc r.key name
      with ⟨hkept, hheld⟩ | ⟨r', hr', value', hkey, hvalue', -, htaken⟩
    · rw [hkept]
      exact hheld r hr value rfl hvalue
    · rw [htaken, Option.some_beq_some]
      exact hc r' hr' r hr hkey name value' value hvalue' hvalue

/-- Tables that merged the same records in two orders have the same keys. -/
theorem keys_mergeAll_perm (hnodup : (Assoc.keys table).Nodup) {records others : List Record}
    (hperm : records.Perm others) :
    (Assoc.keys (mergeAll table records).1).Perm (Assoc.keys (mergeAll table others).1) := by
  refine (List.perm_ext_iff_of_nodup (nodup_keys_mergeAll hnodup records)
    (nodup_keys_mergeAll hnodup others)).mpr fun key => ?_
  rw [Assoc.mem_keys_iff, Assoc.mem_keys_iff, isSome_get?_mergeAll, isSome_get?_mergeAll]
  exact or_congr_right (exists_congr fun r => and_congr_left' hperm.mem_iff)

/-- Tables that merged the same compatible records in two orders hold equal records. -/
theorem get?_mergeAll_perm (ht : table.WellFormed) {records others : List Record}
    (hrecords : ∀ r ∈ records, r.WellFormed) (hc : Record.Compatible records)
    (hperm : records.Perm others) (key : RecordKey) :
    Option.Rel Record.Equal (Assoc.get? (mergeAll table records).1 key)
      (Assoc.get? (mergeAll table others).1 key) := by
  have hsame : (Assoc.get? (mergeAll table records).1 key).isSome = true ↔
      (Assoc.get? (mergeAll table others).1 key).isSome = true := by
    rw [← Assoc.mem_keys_iff, ← Assoc.mem_keys_iff]
    exact (keys_mergeAll_perm ht.nodup hperm).mem_iff
  have hfields := fieldAt_mergeAll_perm ht hrecords hc hperm key
  cases hr : Assoc.get? (mergeAll table records).1 key with
  | none =>
    cases hr' : Assoc.get? (mergeAll table others).1 key with
    | none => exact .none
    | some r' =>
      rw [hr, hr'] at hsame
      cases hsame.mpr rfl
  | some r =>
    cases hr' : Assoc.get? (mergeAll table others).1 key with
    | none =>
      rw [hr, hr'] at hsame
      cases hsame.mp rfl
    | some r' =>
      have hkey : r.key = key := keyedByRecord_mergeAll ht.keyed records key r hr
      have hkey' : r'.key = key := keyedByRecord_mergeAll ht.keyed others key r' hr'
      refine .some ⟨hkey.trans hkey'.symm, fun name => ?_⟩
      rw [← fieldAt_of_get?_eq_some hr name, ← fieldAt_of_get?_eq_some hr' name]
      exact hfields name

end RecordTable

namespace MemoryContents

/-- Compatible records are merged in any order with the same report and to equal records, and merging
them once more, in any order again, reports and changes nothing. -/
theorem mergeAll_perm {contents : MemoryContents} (hcontents : contents.table.WellFormed)
    {records others : List Record} (hrecords : ∀ r ∈ records, r.WellFormed)
    (hc : Record.Compatible records) (hperm : records.Perm others) :
    ∃ changed after after',
      Storage.mergeAll contents records = (.ok changed, after) ∧
        Storage.mergeAll contents others = (.ok changed, after') ∧
        (Assoc.keys after.table).Perm (Assoc.keys after'.table) ∧
        (∀ key, Option.Rel Record.Equal (Storage.load? after key) (Storage.load? after' key)) ∧
        ∀ again, records.Perm again → Storage.mergeAll after' again = (.ok ∅, after') := by
  have hothers : ∀ r ∈ others, r.WellFormed := fun r hr => hrecords r (hperm.mem_iff.mpr hr)
  have hchanged := RecordTable.changed_mergeAll_perm hcontents.keyed
    (fun r hr => (hrecords r hr).nodup) hc hperm
  refine ⟨(RecordTable.mergeAll contents.table records).2,
    ⟨(RecordTable.mergeAll contents.table records).1⟩,
    ⟨(RecordTable.mergeAll contents.table others).1⟩, mergeAll_eq contents records, ?_,
    RecordTable.keys_mergeAll_perm hcontents.nodup hperm,
    RecordTable.get?_mergeAll_perm hcontents hrecords hc hperm, fun again hagain => ?_⟩
  · rw [mergeAll_eq, hchanged]
  · have hback : ∀ r ∈ again, r ∈ others := fun r hr =>
      hperm.mem_iff.mp (hagain.mem_iff.mpr hr)
    rw [mergeAll_eq, RecordTable.mergeAll_eq_of_holds
      (fun r hr => (hothers r (hback r hr)).nodup)
      fun r hr => RecordTable.holds_mergeAll hothers (hc.perm hperm) (hback r hr)]

section Pilots

private def pilotTable : RecordTable :=
  [(⟨"Human:1000"⟩, ⟨⟨"Human:1000"⟩, [("name", .scalar (.string "Wormie"))]⟩)]

/-- The second has the place of the first with its keys turned round. -/
private def pilotRecords : List Record :=
  [⟨⟨"Human:1000"⟩, [("name", .scalar (.string "Luke")),
      ("place", .scalar (.object [("x", .ofInt 1), ("y", .ofInt 2)]))]⟩,
    ⟨⟨"Human:1000"⟩, [("place", .scalar (.object [("y", .ofInt 2), ("x", .ofInt 1)])),
      ("height", .scalar (.ofInt 172))]⟩,
    ⟨⟨"Droid:2001"⟩, []⟩]

private theorem wellFormed_pilotTable : pilotTable.WellFormed :=
  RecordTable.wellFormed_nil.merge (r := ⟨⟨"Human:1000"⟩, [("name", .scalar (.string "Wormie"))]⟩)
    (.of_fields (by decide) (by simp [FieldValue.WellFormed, Json.WellFormed]))

private theorem wellFormed_pilotRecords : ∀ r ∈ pilotRecords, r.WellFormed := by
  simp only [pilotRecords, List.forall_mem_cons]
  refine ⟨.of_fields (by decide) ?_, .of_fields (by decide) ?_, .of_fields (by decide) ?_,
    List.forall_mem_nil _⟩
  · simp [FieldValue.WellFormed, Json.WellFormed, Json.WellFormedMembers, Assoc.keys, Json.ofInt]
  · simp [FieldValue.WellFormed, Json.WellFormed, Json.WellFormedMembers, Assoc.keys, Json.ofInt]
  · exact List.forall_mem_nil _

/-- Both orders report the same, though the place that is held has its keys in the order of the
record that came first. -/
theorem mergeAll_perm_pilotRecords :
    pilotTable.WellFormed ∧ (∀ r ∈ pilotRecords, r.WellFormed) ∧
      Record.Compatible pilotRecords ∧ pilotRecords.Perm pilotRecords.reverse ∧
      ∃ after after' : MemoryContents,
        Storage.mergeAll (⟨pilotTable⟩ : MemoryContents) pilotRecords =
            (.ok (KeySet.ofList ["Human:1000.name", "Human:1000.place", "Human:1000.height"]),
              after) ∧
          Storage.mergeAll (⟨pilotTable⟩ : MemoryContents) pilotRecords.reverse =
            (.ok (KeySet.ofList ["Human:1000.name", "Human:1000.place", "Human:1000.height"]),
              after') ∧
          (∀ key, Option.Rel Record.Equal (Storage.load? after key) (Storage.load? after' key)) ∧
          Storage.mergeAll after' pilotRecords = (.ok ∅, after') := by
  have hcompatible : Record.Compatible pilotRecords := .of_entries (by decide)
  have hperm : pilotRecords.Perm pilotRecords.reverse := (List.reverse_perm pilotRecords).symm
  have hcontents : (⟨pilotTable⟩ : MemoryContents).table.WellFormed := wellFormed_pilotTable
  obtain ⟨changed, after, after', hfirst, hsecond, -, hequal, hagain⟩ :=
    mergeAll_perm hcontents wellFormed_pilotRecords hcompatible hperm
  have hchanged : changed =
      KeySet.ofList ["Human:1000.name", "Human:1000.place", "Human:1000.height"] := by
    have h : (Storage.mergeAll (⟨pilotTable⟩ : MemoryContents) pilotRecords).1.toOption =
        some (KeySet.ofList ["Human:1000.name", "Human:1000.place", "Human:1000.height"]) := by
      decide
    rw [hfirst] at h
    exact Option.some.inj h
  subst hchanged
  exact ⟨wellFormed_pilotTable, wellFormed_pilotRecords, hcompatible, hperm, after, after', hfirst,
    hsecond, hequal, hagain pilotRecords (.refl _)⟩

end Pilots

end MemoryContents

end GraphClient
