import GraphClient.Proofs.Normalization.Paths
import GraphClient.Proofs.Store.Publication
import GraphClient.Storage.Bounded
import GraphClient.Storage.Guarded

/-!
# What a field key names

The key of a record and the name of a field are put together to one text, the field key, and nothing
else is known of a field that changed or that a response depends on. Where every field of an
operation has a name, every such text names one field of one record (`NamesOneField`).

That the names are kept is shown for each of the places where field keys come from: taking data
apart, putting data together, and merging records into contents that report what changed.
-/

namespace GraphClient

/-- The text is the field key of one field of one record, and of no other part of a record. -/
def NamesOneField (k : String) : Prop :=
  ∃ (key : RecordKey) (name : String), (Step.field name).IsStored ∧ key.fieldKey name = k ∧
    ∀ (other : RecordKey) (s : Step), s.IsStored → other.fieldKey s.text = k →
      other = key ∧ s = .field name

theorem namesOneField_fieldKey {name : String} (h : (Step.field name).IsStored) (key : RecordKey) :
    NamesOneField (key.fieldKey name) :=
  ⟨key, name, h, rfl, fun _ _ hs heq => RecordKey.fieldKey_inj hs h heq⟩

/-- The fields that apply are stored under names of their own. -/
theorem isStored_of_applying {selections : List Selection}
    (h : selectionsNamed selections = true) {typename : Option String} {f : Field × Shape}
    (hf : f ∈ selectionsApplying typename selections) (vars : Json.Object) :
    (Step.field (f.1.cacheKey vars)).IsStored :=
  ⟨f.1, vars, (isNamed_of_applying h hf).1, rfl⟩

section Writing

/-- Every field of the record is stored under the name of a field. -/
def Record.IsNamed (r : Record) : Prop := ∀ name ∈ Assoc.keys r.fields, (Step.field name).IsStored

/-- Every record of the table is that of named fields. -/
def RecordTable.IsNamed (table : RecordTable) : Prop := ∀ r ∈ Assoc.values table, r.IsNamed

theorem Record.IsNamed.setField {r : Record} (hr : r.IsNamed) {name : String}
    (hname : (Step.field name).IsStored) (value : FieldValue) :
    (r.setField name value).IsNamed := by
  intro other hother
  rw [Record.setField, Assoc.keys_insert] at hother
  split at hother
  · exact hr other hother
  · rcases List.mem_append.mp hother with hother | hother
    · exact hr other hother
    · rwa [List.mem_singleton.mp hother]

theorem Record.IsNamed.mergeFields {r : Record} (hr : r.IsNamed)
    {fields : List (String × FieldValue)}
    (hfields : ∀ f ∈ fields, (Step.field f.1).IsStored) : (r.mergeFields fields).1.IsNamed := by
  induction fields generalizing r with
  | nil => exact hr
  | cons f fs ih =>
    obtain ⟨hf, hfs⟩ := List.forall_mem_cons.mp hfields
    refine ih ?_ hfs
    rw [Record.mergeField]
    split
    · exact hr
    · exact hr.setField hf f.2

theorem Record.IsNamed.mergeWith {r other : Record} (hr : r.IsNamed) (hother : other.IsNamed) :
    (r.mergeWith other).1.IsNamed :=
  hr.mergeFields fun f hf => hother f.1 (List.mem_map.mpr ⟨f, hf, rfl⟩)

theorem RecordTable.isNamed_nil : RecordTable.IsNamed [] := List.forall_mem_nil _

theorem RecordTable.IsNamed.merge {table : RecordTable} (ht : table.IsNamed) {r : Record}
    (hr : r.IsNamed) : (RecordTable.merge table r).1.IsNamed := by
  intro stored hstored
  obtain ⟨entry, hentry, rfl⟩ := List.mem_map.mp hstored
  rw [RecordTable.merge] at hentry
  split at hentry
  · next existing hexisting =>
    rcases Assoc.mem_of_mem_insert hentry with hentry | rfl
    · exact ht _ (List.mem_map.mpr ⟨entry, hentry, rfl⟩)
    · have hmem := Assoc.mem_of_get?_eq_some hexisting
      exact (ht existing (List.mem_map.mpr ⟨_, hmem, rfl⟩)).mergeWith hr
  · rcases Assoc.mem_of_mem_insert hentry with hentry | rfl
    · exact ht _ (List.mem_map.mpr ⟨entry, hentry, rfl⟩)
    · exact hr

theorem RecordTable.IsNamed.mergeAll {table : RecordTable} (ht : table.IsNamed) {rs : List Record}
    (hrs : ∀ r ∈ rs, r.IsNamed) : (RecordTable.mergeAll table rs).1.IsNamed := by
  induction rs generalizing table with
  | nil => exact ht
  | cons r rs ih =>
    obtain ⟨hr, hrs⟩ := List.forall_mem_cons.mp hrs
    exact ih (ht.merge hr) hrs

namespace Normalization

variable {c : Context}

/-- The field keys on the way are those of named fields. -/
def ShapeNamed (c : Context) (shape : Shape) : Prop :=
  ∀ {field path value stored pieces}, shapeValue c field shape path value = .ok (stored, pieces) →
    ∀ k ∈ pieces.fieldKeys, NamesOneField k

theorem FieldsOf.namesOneField {key : RecordKey} {object : Json.Object}
    {fs : List (Field × Shape)} {fields : List (String × FieldValue)} {pieces : Pieces}
    (h : FieldsOf c key object fs fields pieces)
    (hfs : ∀ f ∈ fs, (Step.field (f.1.cacheKey c.vars)).IsStored ∧ ShapeNamed c f.2) :
    ∀ k ∈ pieces.fieldKeys, NamesOneField k := by
  induction h with
  | nil => exact nofun
  | absent _ _ ih => exact ih (List.forall_mem_cons.mp hfs).2
  | present _ hvalue _ ih =>
    obtain ⟨⟨hstored, hshape⟩, hrest⟩ := List.forall_mem_cons.mp hfs
    intro k hk
    simp only [Pieces.fieldKeys_append, List.mem_append, List.mem_singleton] at hk
    rcases hk with (hk | rfl) | hk
    · exact hshape hvalue k hk
    · exact namesOneField_fieldKey hstored key
    · exact ih hrest k hk

theorem namesOneField_itemValues {item : Shape} (hitem : ShapeNamed c item) {field : Field}
    {path : RecordKey} {index : Nat} {items : List Json} {values : List FieldValue}
    {pieces : Pieces}
    (h : itemValues (shapeValue c field item) path index items = .ok (values, pieces)) :
    ∀ k ∈ pieces.fieldKeys, NamesOneField k := by
  induction items generalizing index values pieces with
  | nil =>
    cases h
    exact nofun
  | cons x xs ih =>
    obtain ⟨first, others, inner, more, hx, hxs, rfl, rfl⟩ := itemValues_cons_eq_ok h
    intro k hk
    rcases List.mem_append.mp hk with hk | hk
    · exact hitem hx k hk
    · exact ih hxs k hk

theorem shapeNamed (c : Context) (shape : Shape) (h : shape.isNamed = true) :
    ShapeNamed c shape := by
  induction shape using Shape.inductionOn with
  | leaf =>
    intro field path value stored pieces hvalue
    rw [shapeValue_leaf] at hvalue
    cases hvalue
    exact nofun
  | list item ih =>
    intro field path value stored pieces hvalue
    rcases shapeValue_list_eq_ok hvalue with ⟨rfl, rfl, rfl⟩ | ⟨items, values, rfl, hitems, rfl⟩
    · exact nofun
    · exact namesOneField_itemValues (ih h) hitems
  | object selections ih =>
    intro field path value stored pieces hvalue
    rcases shapeValue_object_eq_ok hvalue with
      ⟨rfl, rfl, rfl⟩ | ⟨members, key, fields, children, rfl, -, hfields, rfl, rfl⟩
    · exact nofun
    · exact hfields.namesOneField fun f hf =>
        ⟨isStored_of_applying h hf c.vars, ih _ f hf (isNamed_of_applying h hf).2⟩

end Normalization

/-- The field keys that data of named fields depends on name fields. -/
theorem namesOneField_of_normalize {resolver : KeyResolver} {vars : Json.Object} {root : RecordKey}
    {selections : List Selection} (hnamed : selectionsNamed selections = true) {data : Json.Object}
    {normalized : Normalized}
    (h : normalize resolver vars root selections data = .ok normalized) :
    ∀ k, k ∈ normalized.dependentKeys → NamesOneField k := by
  obtain ⟨taken, htaken, -, hkeys⟩ := normalize_eq_ok h
  obtain ⟨fields, children, hfields, rfl⟩ := Normalization.pieces_eq_ok htaken
  intro k hk
  rw [hkeys, KeySet.mem_ofList] at hk
  refine hfields.namesOneField (fun f hf => ⟨isStored_of_applying hnamed hf vars, ?_⟩) k hk
  exact Normalization.shapeNamed ⟨resolver, vars⟩ f.2 (isNamed_of_applying hnamed hf).2

/-- The records of data of named fields have named fields. -/
theorem isNamed_of_normalize {resolver : KeyResolver} {vars : Json.Object} {root : RecordKey}
    {selections : List Selection} (hnamed : selectionsNamed selections = true) {data : Json.Object}
    {normalized : Normalized}
    (h : normalize resolver vars root selections data = .ok normalized) :
    normalized.records.IsNamed := by
  obtain ⟨taken, htaken, hrecords, -⟩ := normalize_eq_ok h
  rw [hrecords]
  refine RecordTable.isNamed_nil.mergeAll fun r hr => ?_
  obtain ⟨v, hv, hyields⟩ := Normalization.yielded_of_pieces htaken r hr
  intro name hname
  obtain ⟨stored, hstored⟩ := Option.isSome_iff_exists.mp (Assoc.mem_keys_iff.mp hname)
  obtain ⟨f, hf, rfl, -⟩ := hyields.field name stored hstored
  exact isStored_of_applying (hv.isNamed hnamed) hf vars

end Writing

section Looking

namespace Reading

variable {c : Context}

/-- The field keys that are looked up for a shape are those of named fields. -/
def ShapeNamed (c : Context) (shape : Shape) : Prop :=
  ∀ {r field stored value trace}, shapeValue c r field shape stored = .ok (value, trace) →
    ∀ k ∈ trace.fieldKeys, NamesOneField k

theorem namesOneField_storedField {field : Field}
    (hfield : (Step.field (field.cacheKey c.vars)).IsStored)
    {shape : Shape} (hshape : ShapeNamed c shape) {r : Record} {value : Json} {trace : Trace}
    (h : storedField c r field (shapeValue c r field shape) = .ok (value, trace)) :
    ∀ k ∈ trace.fieldKeys, NamesOneField k := by
  intro k hk
  cases hfound : r.field? (field.cacheKey c.vars) with
  | some stored =>
    obtain ⟨rest, hvalue, rfl⟩ := (storedField_of_some hfound).mp h
    rcases List.mem_append.mp hk with hk | hk
    · rw [List.mem_singleton.mp hk]
      exact namesOneField_fieldKey hfield r.key
    · exact hshape hvalue k hk
  | none =>
    obtain ⟨-, -, rfl⟩ := (storedField_of_none hfound).mp h
    rw [List.mem_singleton.mp hk]
    exact namesOneField_fieldKey hfield r.key

theorem namesOneField_fieldValue {field : Field}
    (hfield : (Step.field (field.cacheKey c.vars)).IsStored)
    {shape : Shape} (hshape : ShapeNamed c shape) {r : Record} {isObject : Bool} {value : Json}
    {trace : Trace}
    (h : fieldValue c r field isObject (shapeValue c r field shape) = .ok (value, trace)) :
    ∀ k ∈ trace.fieldKeys, NamesOneField k := by
  rw [fieldValue] at h
  split at h
  · exact hshape h
  · exact namesOneField_storedField hfield hshape h

theorem EntriesOf.namesOneField {r : Record} {fs : List (Field × Shape)}
    {entries : List (String × Json)} {trace : Trace} (h : EntriesOf c r fs entries trace)
    (hfs : ∀ f ∈ fs, (Step.field (f.1.cacheKey c.vars)).IsStored ∧ ShapeNamed c f.2) :
    ∀ k ∈ trace.fieldKeys, NamesOneField k := by
  induction h with
  | nil => exact nofun
  | cons hvalue _ ih =>
    obtain ⟨⟨hfield, hshape⟩, hrest⟩ := List.forall_mem_cons.mp hfs
    intro k hk
    rcases List.mem_append.mp hk with hk | hk
    · exact namesOneField_fieldValue hfield hshape hvalue k hk
    · exact ih hrest k hk

theorem namesOneField_objectOf {selections : List Selection} (h : selectionsNamed selections = true)
    (hshapes : ∀ typename, ∀ f ∈ selectionsApplying typename selections, ShapeNamed c f.2)
    {key : RecordKey} {members : Json.Object} {trace : Trace}
    (hread : objectOf c.source key (fun r => selectionsEntries c r selections) =
      .ok (members, trace)) : ∀ k ∈ trace.fieldKeys, NamesOneField k := by
  obtain ⟨r, entries, rest, -, hentries, -, rfl⟩ := objectOf_eq_ok_iff.mp hread
  exact (selectionsEntries_eq_ok_iff.mp hentries).namesOneField fun f hf =>
    ⟨isStored_of_applying h hf c.vars, hshapes _ f hf⟩

theorem namesOneField_itemsOf {item : Shape} (hitem : ShapeNamed c item) {r : Record}
    {field : Field} {items : List FieldValue} {values : List Json} {trace : Trace}
    (h : itemsOf (shapeValue c r field item) items = .ok (values, trace)) :
    ∀ k ∈ trace.fieldKeys, NamesOneField k := by
  induction items generalizing values trace with
  | nil =>
    cases h
    exact nofun
  | cons x xs ih =>
    obtain ⟨value, others, first, rest, hvalue, hothers, rfl, rfl⟩ := itemsOf_cons_eq_ok_iff.mp h
    intro k hk
    rcases List.mem_append.mp hk with hk | hk
    · exact hitem hvalue k hk
    · exact ih hothers k hk

theorem shapeNamed (c : Context) (shape : Shape) (h : shape.isNamed = true) :
    ShapeNamed c shape := by
  induction shape using Shape.inductionOn with
  | leaf =>
    intro r field stored value trace hvalue
    obtain ⟨-, rfl⟩ := shapeValue_leaf_eq_ok_iff.mp hvalue
    exact nofun
  | list item ih =>
    intro r field stored value trace hvalue
    rcases shapeValue_list_eq_ok_iff.mp hvalue with ⟨-, -, rfl⟩ | ⟨items, values, -, -, hitems⟩
    · exact nofun
    · exact namesOneField_itemsOf (ih h) hitems
  | object selections ih =>
    intro r field stored value trace hvalue
    rcases shapeValue_object_eq_ok_iff.mp hvalue with ⟨-, -, rfl⟩ | ⟨key, members, -, -, hmembers⟩
    · exact nofun
    · exact namesOneField_objectOf h
        (fun typename f hf => ih typename f hf (isNamed_of_applying h hf).2) hmembers

end Reading

/-- The field keys that a read of named fields depends on name fields. -/
theorem namesOneField_of_readData {source : RecordSource} {resolver : KeyResolver}
    {vars : Json.Object} {root : RecordKey} {selections : List Selection}
    (hnamed : selectionsNamed selections = true) {result : ReadResult}
    (h : readData source resolver vars root selections = .ok result) :
    ∀ k, k ∈ result.dependentKeys → NamesOneField k := by
  obtain ⟨trace, hobject, hkeys, -⟩ := readData_eq_ok_iff.mp h
  intro k hk
  rw [hkeys, KeySet.mem_ofList] at hk
  refine Reading.namesOneField_objectOf (c := ⟨source, resolver, vars⟩) hnamed ?_ hobject k hk
  exact fun _ f hf => Reading.shapeNamed _ f.2 (isNamed_of_applying hnamed hf).2

end Looking

section Changing

/-- A merge reports field keys that end with the name of a field that came in. -/
def Storage.ReportsFields (σ : Type) [Storage σ] : Prop :=
  ∀ (contents : σ) (r : Record) (changed : KeySet), (Storage.merge contents r).1 = .ok changed →
    ∀ k, k ∈ changed → ∃ (key : RecordKey), ∃ name ∈ Assoc.keys r.fields, k = key.fieldKey name

theorem Record.exists_of_mem_mergeFields (r : Record) {fields : List (String × FieldValue)}
    {k : String} (h : k ∈ (r.mergeFields fields).2) :
    ∃ name ∈ Assoc.keys fields, k = r.key.fieldKey name := by
  induction fields generalizing r with
  | nil => exact absurd h (KeySet.not_mem_empty k)
  | cons f fs ih =>
    have hcases : k = r.key.fieldKey f.1 ∨ k ∈ ((r.mergeField f.1 f.2).mergeFields fs).2 := by
      simp only [mergeFields] at h
      split at h
      · exact .inr h
      · exact KeySet.mem_insert.mp h
    rcases hcases with rfl | h
    · exact ⟨f.1, List.mem_cons_self, rfl⟩
    · obtain ⟨name, hname, rfl⟩ := ih _ h
      exact ⟨name, List.mem_cons_of_mem _ hname, by rw [key_mergeField]⟩

/-- What changes when a record comes in, on top of a record or on its own. -/
theorem Record.exists_of_mem_changed (existing : Option Record) {r : Record} {k : String}
    (h : k ∈ (match existing with
      | some existing => (existing.mergeWith r).2
      | none => r.fieldKeys)) :
    ∃ (key : RecordKey), ∃ name ∈ Assoc.keys r.fields, k = key.fieldKey name := by
  cases existing with
  | some existing => exact ⟨existing.key, existing.exists_of_mem_mergeFields h⟩
  | none => exact ⟨r.key, Record.mem_fieldKeys.mp h⟩

theorem MemoryContents.reportsFields : Storage.ReportsFields MemoryContents := by
  intro contents r changed h k hk
  cases h
  refine Record.exists_of_mem_changed (Assoc.get? contents.table r.key) ?_
  rw [merge, RecordTable.merge] at hk
  cases hexisting : Assoc.get? contents.table r.key with
  | some existing => rwa [hexisting] at hk
  | none => rwa [hexisting] at hk

theorem BoundedContents.reportsFields : Storage.ReportsFields BoundedContents := by
  intro contents r changed h k hk
  cases h
  refine Record.exists_of_mem_changed (contents.load? r.key) ?_
  have hmerged : k ∈ (contents.merged r).2 := by
    simp only [merge] at hk
    split at hk <;> exact hk
  rw [merged] at hmerged
  cases hexisting : contents.load? r.key with
  | some existing => rwa [hexisting] at hmerged
  | none => rwa [hexisting] at hmerged

theorem GuardedContents.reportsFields : Storage.ReportsFields GuardedContents := by
  intro guarded r changed h k hk
  simp only [Storage.merge, merge] at h
  split at h
  · cases h
  · cases h
    exact MemoryContents.reportsFields guarded.contents r _ rfl k hk

theorem Storage.namesOneField_mergeAll {σ : Type} [Storage σ] (hσ : ReportsFields σ) {contents : σ}
    {records : List Record} (hrecords : ∀ r ∈ records, r.IsNamed) {changed : KeySet}
    (h : (mergeAll contents records).1 = .ok changed) : ∀ k, k ∈ changed → NamesOneField k := by
  induction records generalizing contents changed with
  | nil =>
    cases h
    exact fun k hk => absurd hk (KeySet.not_mem_empty k)
  | cons r rs ih =>
    obtain ⟨hr, hrs⟩ := List.forall_mem_cons.mp hrecords
    rw [mergeAll] at h
    split at h
    · cases h
    · next first contents' hmerge =>
      split at h
      · cases h
      · next rest contents'' hrest =>
        cases h
        intro k hk
        rcases KeySet.mem_union.mp hk with hk | hk
        · obtain ⟨key, name, hname, rfl⟩ := hσ contents r first (congrArg Prod.fst hmerge) k hk
          exact namesOneField_fieldKey (hr name hname) key
        · exact ih hrs (congrArg Prod.fst hrest) k hk

theorem Store.namesOneField_merge {σ β : Type} [Storage σ] (hσ : Storage.ReportsFields σ)
    (s : Store σ β) {records : RecordTable} (hrecords : records.IsNamed) {directives : Directives}
    {changed : KeySet} (h : (s.merge (Assoc.values records) directives).1 = .ok changed) :
    ∀ k, k ∈ changed → NamesOneField k := by
  rw [merge] at h
  split at h
  · cases h
    exact fun k hk => absurd hk (KeySet.not_mem_empty k)
  · exact Storage.namesOneField_mergeAll hσ hrecords h

end Changing

open Normalization in
/-- A key of a part of a record tells the record and the part. So for an operation whose fields have
names, whatever depends on it or changes by it names one field of one record, and where objects are
stored under their paths, those of one key were reached by the same steps. -/
theorem fieldKeys_unambiguous {β : Type} (memory : Store MemoryContents β)
    (bounded : Store BoundedContents β) (operation : Operation)
    (hnamed : selectionsNamed operation.selections = true) :
    (∀ (a b : RecordKey) (s t : Step), s.IsStored → t.IsStored →
      (a.fieldKey s.text = b.fieldKey t.text → a = b ∧ s = t) ∧
      (a.child s.text = b.child t.text → a = b ∧ s = t)) ∧
    (∀ resolver source result,
      readData source resolver operation.vars operation.rootKey operation.selections = .ok result →
        ∀ k, k ∈ result.dependentKeys → NamesOneField k) ∧
    (∀ resolver data normalized,
      normalize resolver operation.vars operation.rootKey operation.selections data =
          .ok normalized →
        (∀ k, k ∈ normalized.dependentKeys → NamesOneField k) ∧
        ∀ directives changed,
          ((memory.merge (Assoc.values normalized.records) directives).1 = .ok changed →
            ∀ k, k ∈ changed → NamesOneField k) ∧
          ((bounded.merge (Assoc.values normalized.records) directives).1 = .ok changed →
            ∀ k, k ∈ changed → NamesOneField k)) ∧
    ∀ data p q v w,
      ReachesBy ⟨.byPath, operation.vars⟩ ⟨operation.rootKey, operation.selections, data⟩ p v →
      ReachesBy ⟨.byPath, operation.vars⟩ ⟨operation.rootKey, operation.selections, data⟩ q w →
      v.key = w.key → p = q := by
  refine ⟨fun a b s t hs ht => ⟨?_, ?_⟩, fun resolver source result h => ?_,
    fun resolver data normalized h => ⟨?_, fun directives changed => ⟨?_, ?_⟩⟩,
    fun data p q v w hv hw hkey => ?_⟩
  · exact RecordKey.fieldKey_inj hs ht
  · exact RecordKey.child_inj hs ht
  · exact namesOneField_of_readData hnamed h
  · exact namesOneField_of_normalize hnamed h
  · exact memory.namesOneField_merge MemoryContents.reportsFields (isNamed_of_normalize hnamed h)
  · exact bounded.namesOneField_merge BoundedContents.reportsFields (isNamed_of_normalize hnamed h)
  · exact hv.eq_of_key_eq (fun _ _ => rfl) hnamed hw hkey

section Quoted

/-- An argument whose text looks like the end of a key and the beginning of another. -/
private def quotedQuery : Operation :=
  { name := "Quoted", document := "", id := "quoted", selections := [
    .field { responseName := "search", name := "search",
             arguments := [("text", .literal (.string "\x7d).name(\x7b\"text\":\""))] } (.object [
      .field { responseName := "name", name := "name" } .leaf])] }

private def quotedData : Json.Object := [("search", .object [("name", .string "Leia")])]

private def quotedStore : Store MemoryContents Unit := { resolver := .byPath, contents := .empty }

private def singleStore : Store BoundedContents Unit :=
  { resolver := .byPath, contents := { policy := { maxEntries := 1 } } }

private def quotedKeys : List String := [
  "QUERY_ROOT.search(\x7b\"text\":\"\x7d).name(\x7b\\\"text\\\":\\\"\"\x7d)",
  "QUERY_ROOT.search(\x7b\"text\":\"\x7d).name(\x7b\\\"text\\\":\\\"\"\x7d).name"]

theorem fieldKeys_unambiguous_quotedQuery :
    ∃ normalized changed,
      normalize .byPath [] .queryRoot quotedQuery.selections quotedData = .ok normalized ∧
      (quotedStore.merge (Assoc.values normalized.records) .none).1 = .ok changed ∧
      changed.toList = quotedKeys ∧ ∀ k, k ∈ changed → NamesOneField k := by
  obtain ⟨-, -, hkeys, -⟩ := fieldKeys_unambiguous quotedStore singleStore quotedQuery (by decide)
  obtain ⟨normalized, hnormalize⟩ : ∃ normalized,
      normalize .byPath [] .queryRoot quotedQuery.selections quotedData = .ok normalized :=
    exists_eq_ok (by decide)
  have hmerge := quotedStore.merge_values_eq normalized.records
  refine ⟨normalized, _, hnormalize, congrArg Prod.fst hmerge, ?_,
    ((hkeys .byPath quotedData normalized hnormalize).2 .none _).1 (congrArg Prod.fst hmerge)⟩
  have hreported : (normalize .byPath [] .queryRoot quotedQuery.selections
      quotedData).toOption.map (fun normalized =>
        (RecordTable.mergeAll [] (Assoc.values normalized.records)).2.toList) =
      some quotedKeys := by decide +kernel
  rw [hnormalize] at hreported
  exact Option.some.inj hreported

end Quoted

end GraphClient
