import GraphClient.Proofs.Normalization.Visits
import GraphClient.Proofs.Record.KeyOrder
import GraphClient.Proofs.Record.References
import GraphClient.Storage.Memory

/-!
# The field keys of a response and those of its records

Normalization gives records, and the field keys on which the response depends. The two are collected
apart: a field key at once when its field is found, a record only behind the records of its children,
into a place that may have been filled by then. They agree (`normalize_reports`): merging loses no
field of a record, so the field keys of a table are those of all the records that went into it, and
`Pieces.Reported` says for every part of the walk that its field keys are those of its records. What an
object's own fields add to both is kept apart until its record is there.

The records are filed under their own keys, each key once, so an empty storage takes them as they are,
one after the other, and reports all their fields.
-/

namespace GraphClient

namespace Record

/-- No field is lost by a merge, neither of what was there nor of what comes in. -/
theorem mem_keys_mergeFields (r : Record) (fields : List (String × FieldValue)) (name : String) :
    name ∈ Assoc.keys (r.mergeFields fields).1.fields ↔
      name ∈ Assoc.keys r.fields ∨ name ∈ fields.map Prod.fst := by
  induction fields generalizing r with
  | nil => exact (or_iff_left List.not_mem_nil).symm
  | cons f fs ih =>
    obtain ⟨key, value⟩ := f
    have hfirst : name ∈ Assoc.keys (r.mergeField key value).fields ↔
        name ∈ Assoc.keys r.fields ∨ name = key := by
      rw [Assoc.mem_keys_iff, Assoc.mem_keys_iff, ← field?, ← field?]
      by_cases hname : name = key
      · subst hname
        rw [field?_mergeField_self, FieldValue.isSome_afterMerge]
        simp
      · rw [field?_mergeField_of_ne r value hname]
        exact (or_iff_left hname).symm
    have hrest := ih (r.mergeField key value)
    rw [mergeFields_cons, hrest, hfirst, List.map_cons, List.mem_cons, or_assoc]

theorem mem_fieldKeys_mergeWith {r other : Record} (h : r.key = other.key) {k : String} :
    k ∈ (r.mergeWith other).1.fieldKeys ↔ k ∈ r.fieldKeys ∨ k ∈ other.fieldKeys := by
  rw [mem_fieldKeys, mem_fieldKeys, mem_fieldKeys, ← h, ← exists_or]
  refine exists_congr fun name => ?_
  rw [mergeWith, mem_keys_mergeFields, key_mergeFields, or_and_right, ← Assoc.keys]

end Record

namespace RecordTable

/-- The field keys of all records of a table. -/
def fieldKeys (table : RecordTable) : KeySet :=
  table.foldr (fun entry keys => entry.2.fieldKeys ∪ keys) ∅

theorem fieldKeys_cons (entry : RecordKey × Record) (table : RecordTable) :
    fieldKeys (entry :: table) = entry.2.fieldKeys ∪ fieldKeys table := rfl

theorem mem_fieldKeys {table : RecordTable} {k : String} :
    k ∈ table.fieldKeys ↔ ∃ entry ∈ table, k ∈ entry.2.fieldKeys := by
  induction table with
  | nil => exact iff_of_false (KeySet.not_mem_empty k) nofun
  | cons entry table ih => simp only [fieldKeys_cons, KeySet.mem_union, ih, List.exists_mem_cons_iff]

theorem mem_fieldKeys_of_get? {table : RecordTable} (h : (Assoc.keys table).Nodup) {k : String} :
    k ∈ table.fieldKeys ↔ ∃ key r, Assoc.get? table key = some r ∧ k ∈ r.fieldKeys := by
  rw [mem_fieldKeys, Prod.exists]
  exact exists_congr fun key => exists_congr fun r =>
    and_congr_left' (Assoc.get?_eq_some_iff_mem h).symm

/-- Under the key of a record that is merged stand its fields and those that stood there. -/
theorem exists_get?_merge_eq {table : RecordTable} (hkeyed : table.KeyedByRecord) (r : Record) :
    ∃ stored, Assoc.get? (merge table r).1 r.key = some stored ∧
      ∀ k, k ∈ stored.fieldKeys ↔
        (∃ existing, Assoc.get? table r.key = some existing ∧ k ∈ existing.fieldKeys) ∨
          k ∈ r.fieldKeys := by
  cases hget : Assoc.get? table r.key with
  | none =>
    refine ⟨r, by rw [get?_merge_self, hget], fun k => ?_⟩
    simp
  | some existing =>
    refine ⟨(existing.mergeWith r).1, by rw [get?_merge_self, hget], fun k => ?_⟩
    simp [Record.mem_fieldKeys_mergeWith (hkeyed _ _ hget)]

theorem mem_fieldKeys_merge {table : RecordTable} (hnodup : (Assoc.keys table).Nodup)
    (hkeyed : table.KeyedByRecord) (r : Record) {k : String} :
    k ∈ fieldKeys (merge table r).1 ↔ k ∈ table.fieldKeys ∨ k ∈ r.fieldKeys := by
  obtain ⟨merged, hmerged, hfields⟩ := exists_get?_merge_eq hkeyed r
  rw [mem_fieldKeys_of_get? (nodup_keys_merge hnodup r), mem_fieldKeys_of_get? hnodup]
  constructor
  · rintro ⟨key, stored, hstored, hk⟩
    by_cases hkey : key = r.key
    · subst hkey
      obtain rfl : merged = stored := Option.some.inj (hmerged.symm.trans hstored)
      obtain ⟨existing, hexisting, hk⟩ | hk := (hfields k).mp hk
      · exact .inl ⟨r.key, existing, hexisting, hk⟩
      · exact .inr hk
    · rw [get?_merge_of_ne table hkey] at hstored
      exact .inl ⟨key, stored, hstored, hk⟩
  · rintro (⟨key, stored, hstored, hk⟩ | hk)
    · by_cases hkey : key = r.key
      · subst hkey
        exact ⟨r.key, merged, hmerged, (hfields k).mpr (.inl ⟨stored, hstored, hk⟩)⟩
      · exact ⟨key, stored, (get?_merge_of_ne table hkey).trans hstored, hk⟩
    · exact ⟨r.key, merged, hmerged, (hfields k).mpr (.inr hk)⟩

/-- The field keys of a table are those of the records that went into it. -/
theorem mem_fieldKeys_mergeAll {table : RecordTable} (hnodup : (Assoc.keys table).Nodup)
    (hkeyed : table.KeyedByRecord) (rs : List Record) {k : String} :
    k ∈ fieldKeys (mergeAll table rs).1 ↔ k ∈ table.fieldKeys ∨ ∃ r ∈ rs, k ∈ r.fieldKeys := by
  induction rs generalizing table with
  | nil => simp
  | cons r rs ih =>
    rw [mergeAll_cons, ih (nodup_keys_merge hnodup r) (keyedByRecord_merge hkeyed r),
      mem_fieldKeys_merge hnodup hkeyed, or_assoc, List.exists_mem_cons_iff]

theorem mem_fieldKeys_ofRecords (rs : List Record) {k : String} :
    k ∈ (ofRecords rs).fieldKeys ↔ ∃ r ∈ rs, k ∈ r.fieldKeys :=
  (mem_fieldKeys_mergeAll wellFormed_nil.nodup wellFormed_nil.keyed rs).trans
    (or_iff_right (KeySet.not_mem_empty k))

/-- Records with new keys are taken as they are, and all their fields are reported. -/
theorem mergeAll_values_of_nodup {before table : RecordTable}
    (hnodup : (Assoc.keys (before ++ table)).Nodup)
    (hkeyed : ∀ entry ∈ table, entry.2.key = entry.1) :
    mergeAll before (Assoc.values table) = (before ++ table, table.fieldKeys) := by
  induction table generalizing before with
  | nil =>
    rw [List.append_nil]
    rfl
  | cons entry table ih =>
    obtain ⟨key, r⟩ := entry
    obtain ⟨hkey, htable⟩ := List.forall_mem_cons.mp hkeyed
    obtain rfl : r.key = key := hkey
    have hnone : Assoc.get? before r.key = none := Assoc.get?_eq_none_of_nodup hnodup
    have hmerge : merge before r = (before ++ [(r.key, r)], r.fieldKeys) := by
      rw [merge, hnone]
      exact congrArg (·, r.fieldKeys) (Assoc.insert_of_get?_eq_none hnone r)
    have happend : before ++ (r.key, r) :: table = before ++ [(r.key, r)] ++ table := by simp
    rw [happend] at hnodup ⊢
    rw [Assoc.values, List.map_cons, mergeAll_cons, hmerge, ← Assoc.values, ih hnodup htable,
      fieldKeys_cons]

/-- The record that is merged first stands first. -/
theorem exists_ofRecords_eq_cons (r : Record) (rs : List Record) :
    ∃ stored rest, ofRecords (r :: rs) = (r.key, stored) :: rest := by
  have hkeys : Assoc.keys (ofRecords (r :: rs)) = Assoc.addKeys [r.key] (rs.map Record.key) :=
    keys_mergeAll [] (r :: rs)
  obtain ⟨others, hothers⟩ := Assoc.exists_addKeys_eq_append [r.key] (rs.map Record.key)
  rw [hothers] at hkeys
  cases htable : ofRecords (r :: rs) with
  | nil =>
    rw [htable] at hkeys
    cases hkeys
  | cons entry rest =>
    rw [htable] at hkeys
    obtain ⟨hkey, -⟩ := List.cons.inj hkeys
    exact ⟨entry.2, rest, by rw [← hkey]⟩

end RecordTable

/-- The field keys are those of the records. -/
def Pieces.Reported (pieces : Pieces) : Prop :=
  ∀ k, k ∈ pieces.fieldKeys ↔ ∃ r ∈ pieces.records, k ∈ r.fieldKeys

namespace Pieces

theorem reported_empty : Reported ∅ := fun _ => iff_of_false List.not_mem_nil nofun

theorem Reported.append {a b : Pieces} (ha : a.Reported) (hb : b.Reported) : (a ++ b).Reported := by
  intro k
  rw [fieldKeys_append, records_append, List.mem_append, ha k, hb k]
  simp only [List.mem_append, or_and_right, exists_or]

end Pieces

namespace Normalization

variable {c : Context}

theorem mem_fieldKeys_recordOf {key : RecordKey} {fields : List (String × FieldValue)}
    {k : String} : k ∈ (recordOf key fields).fieldKeys ↔ ∃ f ∈ fields, k = key.fieldKey f.1 := by
  rw [Record.mem_fieldKeys, key_recordOf]
  constructor
  · rintro ⟨name, hname, rfl⟩
    obtain ⟨stored, hstored⟩ := Option.isSome_iff_exists.mp (Assoc.mem_keys_iff.mp hname)
    exact ⟨(name, stored), mem_of_field?_recordOf hstored, rfl⟩
  · rintro ⟨f, hf, rfl⟩
    have hname : f.1 ∈ fields.map Prod.fst := List.mem_map.mpr ⟨f, hf, rfl⟩
    exact ⟨f.1, Assoc.mem_keys_iff.mpr (isSome_field?_foldl_setField (.inr hname)), rfl⟩

/-- On the way through the fields of an object, its own fields are reported already, and the record
that holds them is not there yet. -/
def ReportedBeside (key : RecordKey) (fields : List (String × FieldValue)) (pieces : Pieces) :
    Prop :=
  ∀ k, k ∈ pieces.fieldKeys ↔
    (∃ f ∈ fields, k = key.fieldKey f.1) ∨ ∃ r ∈ pieces.records, k ∈ r.fieldKeys

/-- A shape takes every value to pieces that report the fields of their records. -/
def TakesReported (c : Context) (shape : Shape) : Prop :=
  ∀ {field path value stored pieces}, shapeValue c field shape path value = .ok (stored, pieces) →
    pieces.Reported

theorem FieldsOf.reportedBeside {key : RecordKey} {object : Json.Object}
    {fs : List (Field × Shape)} {fields : List (String × FieldValue)} {pieces : Pieces}
    (h : FieldsOf c key object fs fields pieces) (hshapes : ∀ f ∈ fs, TakesReported c f.2) :
    ReportedBeside key fields pieces := by
  induction h with
  | nil => exact fun k => iff_of_false List.not_mem_nil (not_or_intro nofun nofun)
  | absent _ _ ih => exact ih (List.forall_mem_cons.mp hshapes).2
  | @present field shape fs fields pieces value stored inner _ hvalue _ ih =>
    obtain ⟨hshape, hshapes⟩ := List.forall_mem_cons.mp hshapes
    intro k
    have hinner := hshape hvalue k
    have hrest := ih hshapes k
    rw [Pieces.fieldKeys_append, Pieces.fieldKeys_append, List.mem_append, List.mem_append,
      List.mem_singleton, hinner, hrest, List.exists_mem_cons_iff]
    simp only [Pieces.records_append, List.append_nil, List.mem_append, or_and_right, exists_or]
    -- the key of the field stands between those of the records around it
    rw [or_comm (a := ∃ r, r ∈ inner.records ∧ k ∈ r.fieldKeys), or_or_or_comm]

/-- With the record of an object its own fields are those of a record, too. -/
theorem reported_objectPieces {key : RecordKey} {fields : List (String × FieldValue)}
    {children : Pieces} (h : ReportedBeside key fields children) :
    (objectPieces key fields children).Reported := by
  intro k
  have hempty : k ∉ (Record.mk key []).fieldKeys := KeySet.not_mem_empty k
  simp only [objectPieces, h k, List.mem_cons, List.mem_append, List.not_mem_nil, or_false,
    or_and_right, exists_or, exists_eq_left, hempty, false_or,
    mem_fieldKeys_recordOf]
  exact or_comm

theorem reported_itemValues {item : Shape} (hitem : TakesReported c item) {field : Field}
    {path : RecordKey} {index : Nat} {items : List Json} {values : List FieldValue}
    {pieces : Pieces}
    (h : itemValues (shapeValue c field item) path index items = .ok (values, pieces)) :
    pieces.Reported := by
  induction items generalizing index values pieces with
  | nil =>
    cases h
    exact Pieces.reported_empty
  | cons x xs ih =>
    obtain ⟨first, others, inner, more, hx, hxs, rfl, rfl⟩ := itemValues_cons_eq_ok h
    exact (hitem hx).append (ih hxs)

theorem takesReported (c : Context) (shape : Shape) : TakesReported c shape := by
  induction shape using Shape.inductionOn with
  | leaf =>
    intro field path value stored pieces h
    rw [shapeValue_leaf] at h
    cases h
    exact Pieces.reported_empty
  | list item ih =>
    intro field path value stored pieces h
    rcases shapeValue_list_eq_ok h with ⟨-, -, rfl⟩ | ⟨items, values, -, hitems, -⟩
    · exact Pieces.reported_empty
    · exact reported_itemValues ih hitems
  | object selections ih =>
    intro field path value stored pieces h
    rcases shapeValue_object_eq_ok h with
      ⟨-, -, rfl⟩ | ⟨members, key, fields, children, -, -, hfields, -, rfl⟩
    · exact Pieces.reported_empty
    · exact reported_objectPieces (hfields.reportedBeside (ih _))

end Normalization

/-- The two outputs of normalization agree: the response depends on the fields of its records, no more
and no less. The records are filed under their own keys, that of the root first, and an empty storage
that merges them holds them and reports what the response depends on. -/
theorem normalize_reports {resolver : KeyResolver} {vars : Json.Object} {root : RecordKey}
    {selections : List Selection} {data : Json.Object} {normalized : Normalized}
    (h : normalize resolver vars root selections data = .ok normalized) :
    normalized.dependentKeys = normalized.records.fieldKeys ∧
      (Assoc.keys normalized.records).Nodup ∧
      (∀ entry ∈ normalized.records, entry.2.key = entry.1) ∧
      (∃ r rest, normalized.records = (root, r) :: rest) ∧
      Storage.mergeAll MemoryContents.empty (Assoc.values normalized.records) =
        (.ok normalized.dependentKeys, ⟨normalized.records⟩) := by
  obtain ⟨taken, htaken, hrecords, hkeys⟩ := normalize_eq_ok h
  obtain ⟨fields, children, hfields, rfl⟩ := Normalization.pieces_eq_ok htaken
  have hreported := Normalization.reported_objectPieces
    (hfields.reportedBeside fun f _ => Normalization.takesReported _ f.2)
  have hagree : normalized.dependentKeys = normalized.records.fieldKeys := by
    refine KeySet.ext fun k => ?_
    rw [hkeys, hrecords, KeySet.mem_ofList, hreported k, RecordTable.mem_fieldKeys_ofRecords]
  have hnodup : (Assoc.keys normalized.records).Nodup := by
    rw [hrecords]
    exact RecordTable.nodup_keys_mergeAll RecordTable.wellFormed_nil.nodup _
  have hfiled : ∀ entry ∈ normalized.records, entry.2.key = entry.1 := by
    have hempty : ∀ key r, (key, r) ∈ ([] : RecordTable) → r.key = key := nofun
    rw [hrecords]
    exact fun entry => RecordTable.key_of_mem_mergeAll hempty _ entry.1 entry.2
  refine ⟨hagree, hnodup, hfiled, ?_, ?_⟩
  · rw [hrecords]
    exact RecordTable.exists_ofRecords_eq_cons ⟨root, []⟩ _
  · have hmerged : RecordTable.mergeAll [] (Assoc.values normalized.records) =
        (normalized.records, normalized.records.fieldKeys) :=
      RecordTable.mergeAll_values_of_nodup hnodup hfiled
    have htable : MemoryContents.empty.table = [] := rfl
    rw [MemoryContents.mergeAll_eq, htable, hmerged, hagree]

section Droid

private def friendSelections : List Selection :=
  [.field { responseName := "id", name := "id" } .leaf,
    .field { responseName := "called", name := "name" } .leaf]

private def heroSelections : List Selection :=
  [.field { responseName := "hero", name := "hero" } (.object [
    .fragment ["Droid"] [.field { responseName := "use", name := "primaryFunction" } .leaf],
    .field { responseName := "friends", name := "friends" } (.list (.object friendSelections))])]

/-- A droid that is its own friend: its record is filled by the friend before its own fields come. -/
private def heroData : Json.Object :=
  [("hero", .object [("__typename", .string "Droid"), ("id", .string "2001"),
    ("use", .string "Astromech"),
    ("friends", .array [.null, .object [("__typename", .string "Droid"), ("id", .string "2001"),
      ("called", .string "R2-D2")]])])]

theorem normalize_reports_ownFriend :
    ∃ normalized, normalize .byTypeAndId [] .queryRoot heroSelections heroData = .ok normalized ∧
      normalized.dependentKeys.toList = ["Droid:2001.friends", "Droid:2001.id", "Droid:2001.name",
        "Droid:2001.primaryFunction", "QUERY_ROOT.hero"] ∧
      normalized.dependentKeys = normalized.records.fieldKeys ∧
      (Assoc.keys normalized.records).Nodup ∧
      (∀ entry ∈ normalized.records, entry.2.key = entry.1) ∧
      (∃ r rest, normalized.records = (.queryRoot, r) :: rest) ∧
      Storage.mergeAll MemoryContents.empty (Assoc.values normalized.records) =
        (.ok normalized.dependentKeys, ⟨normalized.records⟩) := by
  have hkeys : (normalize .byTypeAndId [] .queryRoot heroSelections heroData).toOption.map
      (·.dependentKeys.toList) = some ["Droid:2001.friends", "Droid:2001.id", "Droid:2001.name",
        "Droid:2001.primaryFunction", "QUERY_ROOT.hero"] := by decide +kernel
  cases h : normalize .byTypeAndId [] .queryRoot heroSelections heroData with
  | error mismatch =>
    rw [h] at hkeys
    cases hkeys
  | ok normalized =>
    rw [h] at hkeys
    exact ⟨normalized, rfl, Option.some.inj hkeys, normalize_reports h⟩

end Droid

end GraphClient
