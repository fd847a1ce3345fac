import GraphClient.Proofs.Normalization.Visits
import GraphClient.Proofs.Record.KeyOrder
import GraphClient.Proofs.Record.WellFormed
import GraphClient.Proofs.Selection.Restriction

/-!
# Reading what was written

A source of records holds a visit when it has the record of the visit with a value for every field
that the visit writes, equal to what is written (`HeldIn`). If it holds every visit of a response, a
read takes the same way as the walk that took the response apart: a reference leads to the record of
the object it was written for, and fragments are decided alike, since the concrete type is one of the
fields written.

What a part of the read gives back is compared with the part of the response it was written for in
`ReadAgain`: the value is equal to the restricted one, with its members in the order of the
selections, the same field keys are met, and the same keys of records in the same order.
-/

namespace GraphClient

namespace Json

theorem mergeMembers_eq_append {members entries : Json.Object}
    (h : (Assoc.keys (members ++ entries)).Nodup) :
    mergeMembers members entries = members ++ entries := by
  induction entries generalizing members with
  | nil => rw [mergeMembers, List.append_nil]
  | cons entry entries ih =>
    obtain ⟨name, value⟩ := entry
    have hsplit : members ++ (name, value) :: entries = members ++ [(name, value)] ++ entries := by
      rw [List.append_assoc, List.singleton_append]
    have hnone : Assoc.get? members name = none := by
      rw [← Option.not_isSome_iff_eq_none, ← Assoc.mem_keys_iff]
      intro hmem
      rw [Assoc.keys, List.map_append, List.nodup_append] at h
      exact h.2.2 name hmem name List.mem_cons_self rfl
    have hmember : mergeMember members name value = members ++ [(name, value)] := by
      cases value with
      | object incoming =>
        rw [mergeMember, hnone]
        exact Assoc.insert_of_get?_eq_none hnone _
      | _ => exact Assoc.insert_of_get?_eq_none hnone _
    rw [mergeMembers, hmember, hsplit]
    exact ih (by rwa [← hsplit])

/-- Members with different names are not merged. -/
theorem mergeMembers_nil {entries : Json.Object} (h : (Assoc.keys entries).Nodup) :
    mergeMembers [] entries = entries :=
  mergeMembers_eq_append h

end Json

namespace Reading

open Normalization (Visit Meets Reaches Writes FieldsOf Readable)

/-- Reading under the resolver and the variables of the walk that has written. -/
def contextOf (c : Normalization.Context) (source : RecordSource) : Context :=
  ⟨source, c.resolver, c.vars⟩

/-- A record holds what a visit writes. -/
structure Holds (c : Normalization.Context) (r : Record) (v : Visit) : Prop where
  key : r.key = v.key
  field : ∀ name written, Writes c v name written →
    ∃ stored, r.field? name = some stored ∧ (stored == written) = true

/-- A source has a record that holds what a visit writes. -/
def HeldIn (c : Normalization.Context) (source : RecordSource) (v : Visit) : Prop :=
  ∃ r, source v.key = some r ∧ Holds c r v

/-- What is read is what was written of a value. -/
structure ReadAgain (shape : Shape) (value : Json) (pieces : Pieces) (json : Json)
    (trace : Trace) : Prop where
  data : (json == shape.restrict value) = true
  ordered : shape.restrict json = json
  fieldKeys : ∀ k, k ∈ trace.fieldKeys ↔ k ∈ pieces.fieldKeys
  order : Assoc.SameOrder (pieces.records.map Record.key) (trace.loaded.map Prod.fst)

/-- An entry that was read is what was written of a field. -/
structure EntryAgain (object : Json.Object) (f : Field × Shape) (entry : String × Json) : Prop where
  name : entry.1 = f.1.responseName
  data : ∃ value, Assoc.get? object f.1.responseName = some value ∧
    (entry.2 == f.2.restrict value) = true
  ordered : f.2.restrict entry.2 = entry.2

/-- Every stored value that is equal to one written for the shape is read again, if the objects that
the value holds are on the way from the root. -/
def ShapeReadAgain (c : Normalization.Context) (source : RecordSource) (root : Visit)
    (shape : Shape) : Prop :=
  ∀ {field path value written pieces},
    Normalization.shapeValue c field shape path value = .ok (written, pieces) →
    (∀ v, Meets c field shape path value v → Reaches c root v) →
    ∀ (r : Record) {stored : FieldValue}, (stored == written) = true →
    ∃ json trace, shapeValue (contextOf c source) r field shape stored = .ok (json, trace) ∧
      ReadAgain shape value pieces json trace

variable {c : Normalization.Context} {source : RecordSource} {root : Visit}

theorem shapeValue_null (c : Context) (r : Record) (field : Field) (shape : Shape) :
    shapeValue c r field shape (.scalar .null) = .ok (.null, ∅) := by
  cases shape <;> rfl

theorem eq_scalar_of_beq {stored : FieldValue} {value : Json}
    (h : (stored == .scalar value) = true) :
    ∃ json, stored = .scalar json ∧ (json == value) = true := by
  cases stored with
  | scalar json => exact ⟨json, rfl, h⟩
  | reference key => cases h
  | list items => cases h

theorem eq_reference_of_beq {stored : FieldValue} {key : RecordKey}
    (h : (stored == .reference key) = true) : stored = .reference key := by
  cases stored with
  | reference other =>
    have hkey : (other == key) = true := h
    rw [beq_iff_eq.mp hkey]
  | scalar value => cases h
  | list items => cases h

theorem eq_list_of_beq {stored : FieldValue} {written : List FieldValue}
    (h : (stored == .list written) = true) :
    ∃ items, stored = .list items ∧ FieldValue.equalItems items written = true := by
  cases stored with
  | list items => exact ⟨items, rfl, h⟩
  | scalar value => cases h
  | reference key => cases h

theorem eq_null_of_beq {json : Json} (h : (json == .null) = true) : json = .null := by
  cases json with
  | null => rfl
  | _ => cases h

/-- A stored value equal to a `null` that was written reads as `null`. -/
theorem readAgain_null {shape : Shape} {stored : FieldValue}
    (h : (stored == .scalar .null) = true) (r : Record) (field : Field) :
    ∃ json trace, shapeValue (contextOf c source) r field shape stored = .ok (json, trace) ∧
      ReadAgain shape .null ∅ json trace := by
  obtain ⟨json, rfl, hjson⟩ := eq_scalar_of_beq h
  obtain rfl := eq_null_of_beq hjson
  refine ⟨.null, ∅, shapeValue_null _ r field shape, ?_, ?_, fun _ => Iff.rfl, .refl []⟩
  · rw [Shape.restrict_null]
    rfl
  · exact Shape.restrict_null shape

theorem shapeReadAgain_leaf : ShapeReadAgain c source root .leaf := by
  intro field path value written pieces h _ r stored hstored
  rw [Normalization.shapeValue_leaf] at h
  cases h
  obtain ⟨json, rfl, hjson⟩ := eq_scalar_of_beq hstored
  refine ⟨json, ∅, shapeValue_leaf_eq_ok_iff.mpr ⟨rfl, rfl⟩, ?_, ?_, fun _ => Iff.rfl, .refl []⟩
  · rwa [Shape.restrict_leaf]
  · exact Shape.restrict_leaf json

theorem ReadAgain.cons {item : Shape} {x json : Json} {inner more : Pieces} {trace traces : Trace}
    {xs jsons : List Json} (h : ReadAgain item x inner json trace)
    (hs : ReadAgain (.list item) (.array xs) more (.array jsons) traces) :
    ReadAgain (.list item) (.array (x :: xs)) (inner ++ more) (.array (json :: jsons))
      (trace ++ traces) := by
  obtain ⟨hdata, hordered, hkeys, horder⟩ := hs
  rw [Shape.restrict_list] at hdata hordered
  refine ⟨?_, ?_, fun k => ?_, ?_⟩
  · rw [Shape.restrict_list]
    exact Bool.and_eq_true_iff.mpr ⟨h.data, hdata⟩
  · rw [Shape.restrict_list, List.map_cons, h.ordered, Json.array.inj hordered]
  · rw [Trace.fieldKeys_append, Pieces.fieldKeys_append, List.mem_append, List.mem_append,
      h.fieldKeys, hkeys]
  · rw [Pieces.records_append, Trace.loaded_append, List.map_append, List.map_append]
    exact h.order.append horder

theorem itemsOf_again {item : Shape} (hitem : ShapeReadAgain c source root item) {field : Field}
    {path : RecordKey} {start : Nat} {items : List Json} {written : List FieldValue}
    {pieces : Pieces}
    (h : Normalization.itemValues (Normalization.shapeValue c field item) path start items =
      .ok (written, pieces))
    (hreaches : ∀ index x v, items[index]? = some x →
      Meets c field item (path.item (start + index)) x v → Reaches c root v)
    (r : Record) {stored : List FieldValue} (hstored : FieldValue.equalItems stored written = true) :
    ∃ jsons trace, itemsOf (shapeValue (contextOf c source) r field item) stored =
        .ok (jsons, trace) ∧
      ReadAgain (.list item) (.array items) pieces (.array jsons) trace := by
  induction items generalizing start written pieces stored with
  | nil =>
    cases h
    cases stored with
    | nil =>
      refine ⟨[], ∅, rfl, ?_, ?_, fun _ => Iff.rfl, .refl []⟩
      · rw [Shape.restrict_list]
        rfl
      · exact Shape.restrict_list item []
    | cons x xs => cases hstored
  | cons x xs ih =>
    obtain ⟨first, others, inner, more, hx, hxs, rfl, rfl⟩ := Normalization.itemValues_cons_eq_ok h
    cases stored with
    | nil => cases hstored
    | cons y ys =>
      obtain ⟨hy, hys⟩ := Bool.and_eq_true_iff.mp hstored
      obtain ⟨json, trace, hjson, hagain⟩ := hitem hx (fun v hv => hreaches 0 x v rfl hv) r hy
      have hrest : ∀ index z v, xs[index]? = some z →
          Meets c field item (path.item (start + 1 + index)) z v → Reaches c root v := by
        intro index z v hz hmeets
        rw [show start + 1 + index = start + (index + 1) by omega] at hmeets
        exact hreaches (index + 1) z v hz hmeets
      obtain ⟨jsons, traces, hjsons, hagains⟩ := ih hxs hrest hys
      refine ⟨json :: jsons, trace ++ traces, ?_, hagain.cons hagains⟩
      exact itemsOf_cons_eq_ok_iff.mpr ⟨json, jsons, trace, traces, hjson, hjsons, rfl, rfl⟩

/-- The fields of a visit are read from a record that holds it. -/
theorem entriesOf_again (hc : c.resolver.NeverRedirects) {v : Visit} (hv : Reaches c root v)
    {fs : List (Field × Shape)} {fields : List (String × FieldValue)} {pieces : Pieces}
    (h : FieldsOf c v.key v.object fs fields pieces) (hfs : fs ⊆ v.fields)
    (hpresent : ∀ f ∈ v.fields, (Assoc.get? v.object f.1.responseName).isSome = true)
    (hshapes : ∀ f ∈ v.fields, ShapeReadAgain c source root f.2) {r : Record}
    (hr : Holds c r v) :
    ∃ entries trace, EntriesOf (contextOf c source) r fs entries trace ∧
      List.Forall₂ (EntryAgain v.object) fs entries ∧
      (∀ k, k ∈ trace.fieldKeys ↔ k ∈ pieces.fieldKeys) ∧
      Assoc.SameOrder (pieces.records.map Record.key) (trace.loaded.map Prod.fst) := by
  induction h with
  | nil => exact ⟨[], ∅, .nil, .nil, fun _ => Iff.rfl, .refl []⟩
  | @absent field shape fs fields pieces hnone _ ih =>
    have hsome := hpresent _ (hfs List.mem_cons_self)
    rw [hnone] at hsome
    cases hsome
  | @present field shape fs fields pieces value written inner hsome hwritten _ ih =>
    have hf := hfs List.mem_cons_self
    obtain ⟨entries, traces, hentries, hagains, hkeys, horder⟩ :=
      ih fun f hf => hfs (List.mem_cons_of_mem _ hf)
    obtain ⟨stored, hfield, hstored⟩ := hr.field _ _ ⟨_, hf, rfl, value, inner, hsome, hwritten⟩
    have hreaches : ∀ w, Meets c field shape (v.key.child (field.cacheKey c.vars)) value w →
        Reaches c root w := fun w hw => hv.tail ⟨_, hf, value, hsome, hw⟩
    obtain ⟨json, trace, hjson, hagain⟩ := hshapes _ hf hwritten hreaches r hstored
    refine ⟨(field.responseName, json) :: entries,
      ⟨[r.key.fieldKey (field.cacheKey c.vars)], []⟩ ++ trace ++ traces,
      .cons ?_ hentries, .cons ?_ hagains, ?_, ?_⟩
    · rw [fieldValue_eq_storedField (show (contextOf c source).resolver.NeverRedirects from hc)]
      have hlooked : r.field? (field.cacheKey (contextOf c source).vars) = some stored := hfield
      exact (storedField_of_some hlooked).mpr ⟨trace, hjson, rfl⟩
    · exact ⟨rfl, ⟨value, hsome, hagain.data⟩, hagain.ordered⟩
    · intro k
      simp only [Trace.fieldKeys_append, Pieces.fieldKeys_append, List.mem_append, hagain.fieldKeys,
        hkeys, hr.key]
      rw [or_comm (a := k ∈ inner.fieldKeys)]
    · simp only [Trace.loaded_append, Pieces.records_append, List.append_nil, List.nil_append,
        List.map_append]
      exact hagain.order.append horder

section Entries

variable {object : Json.Object} {fs : List (Field × Shape)} {entries : List (String × Json)}

theorem keys_eq_of_again (h : List.Forall₂ (EntryAgain object) fs entries) :
    Assoc.keys entries = fs.map fun f => f.1.responseName := by
  induction h with
  | nil => rfl
  | cons hentry _ ih =>
    rw [Assoc.keys, List.map_cons, List.map_cons, hentry.name]
    exact congrArg _ ih

theorem exists_entry_of_again (h : List.Forall₂ (EntryAgain object) fs entries)
    {f : Field × Shape} (hf : f ∈ fs) : ∃ entry ∈ entries, EntryAgain object f entry := by
  induction h with
  | nil => cases hf
  | cons hentry _ ih =>
    rcases List.mem_cons.mp hf with rfl | hf
    · exact ⟨_, List.mem_cons_self, hentry⟩
    · obtain ⟨entry, hmem, hagain⟩ := ih hf
      exact ⟨entry, List.mem_cons_of_mem _ hmem, hagain⟩

/-- The entries are the members that restricting leaves of the object, one by one. -/
theorem forall₂_restrictField (h : List.Forall₂ (EntryAgain object) fs entries) :
    List.Forall₂ (fun x y => x.1 = y.1 ∧ Json.equal x.2 y.2 = true) entries
      (fs.filterMap (restrictField object)) := by
  induction h with
  | nil => exact .nil
  | @cons f entry fs entries hentry _ ih =>
    obtain ⟨value, hvalue, hequal⟩ := hentry.data
    have hmember : restrictField object f = some (f.1.responseName, f.2.restrict value) := by
      rw [restrictField, hvalue]
      rfl
    rw [List.filterMap_cons_some hmember]
    exact .cons ⟨hentry.name, hequal⟩ ih

theorem filterMap_restrictField_self (h : List.Forall₂ (EntryAgain object) fs entries)
    {all : Json.Object} (hall : ∀ entry ∈ entries, Assoc.get? all entry.1 = some entry.2) :
    fs.filterMap (restrictField all) = entries := by
  induction h with
  | nil => rfl
  | @cons f entry fs entries hentry _ ih =>
    obtain ⟨hfirst, hall⟩ := List.forall_mem_cons.mp hall
    have hmember : restrictField all f = some entry := by
      rw [restrictField, ← hentry.name, hfirst]
      exact congrArg some (congrArg (Prod.mk entry.1) hentry.ordered)
    rw [List.filterMap_cons_some hmember, ih hall]

end Entries

theorem recordTypename?_of_scalar {r : Record} {json : Json}
    (h : r.field? Json.typenameKey = some (.scalar json)) : recordTypename? r = json.asString? := by
  rw [recordTypename?, h]
  cases json <;> rfl

/-- The type that a record names is read off what is stored for the member. -/
theorem recordTypename?_of_shapeValue {field : Field} {shape : Shape} {path : RecordKey}
    {value : Json} {stored : FieldValue} {pieces : Pieces}
    (h : Normalization.shapeValue c field shape path value = .ok (stored, pieces)) {r : Record}
    (hr : r.field? Json.typenameKey = some stored) :
    recordTypename? r = value.asString? := by
  cases shape with
  | leaf =>
    rw [Normalization.shapeValue_leaf] at h
    cases h
    exact recordTypename?_of_scalar hr
  | object selections =>
    rcases Normalization.shapeValue_object_eq_ok h with
      ⟨rfl, rfl, -⟩ | ⟨members, key, fields, children, rfl, -, -, rfl, -⟩
    · exact recordTypename?_of_scalar hr
    · rw [recordTypename?, hr]
      rfl
  | list item =>
    rcases Normalization.shapeValue_list_eq_ok h with ⟨rfl, rfl, -⟩ | ⟨items, values, rfl, -, rfl⟩
    · exact recordTypename?_of_scalar hr
    · rw [recordTypename?, hr]
      rfl

/-- Where a fragment has to be decided, the object names its type under the name of that field. -/
theorem exists_typename (hroot : Readable c root) {v : Visit} (hv : Reaches c root v)
    (hfragment : v.selections.any Selection.isFragment = true) :
    ∃ field value, (field, .leaf) ∈ v.fields ∧ field.responseName = Json.typenameKey ∧
      field.cacheKey c.vars = Json.typenameKey ∧
      Assoc.get? v.object Json.typenameKey = some value := by
  obtain ⟨field, hmem, hname, hresponse, harguments⟩ := hroot.typename v hv hfragment
  have hf := mem_selectionsApplying_of_mem hmem (Json.typename? v.object)
  obtain ⟨value, hvalue⟩ := Option.isSome_iff_exists.mp (hroot.present v hv _ hf)
  refine ⟨field, value, hf, hresponse, ?_, hresponse ▸ hvalue⟩
  rw [Field.cacheKey_of_no_arguments harguments, hname]

/-- The record decides about fragments as the object does. -/
theorem selectionsApplying_recordTypename? (hroot : Readable c root) {v : Visit}
    (hv : Reaches c root v) {r : Record} (hr : Holds c r v) :
    selectionsApplying (recordTypename? r) v.selections = v.fields := by
  cases hfragment : v.selections.any Selection.isFragment with
  | false => exact selectionsApplying_eq_of_no_fragment hfragment _ _
  | true =>
    obtain ⟨field, value, hf, hresponse, hkey, hvalue⟩ := exists_typename hroot hv hfragment
    have hwrites : Writes c v Json.typenameKey (.scalar value) :=
      ⟨_, hf, hkey, value, ∅, hresponse ▸ hvalue, Normalization.shapeValue_leaf c field _ value⟩
    obtain ⟨stored, hstored, hequal⟩ := hr.field _ _ hwrites
    obtain ⟨json, rfl, hjson⟩ := eq_scalar_of_beq hequal
    rw [recordTypename?_of_scalar hstored, Json.asString?_eq_of_equal hjson, Visit.fields,
      Json.typename?, hvalue, Option.bind_some]

/-- So does the object that is read. -/
theorem selectionsApplying_typename?_entries (hroot : Readable c root) {v : Visit}
    (hv : Reaches c root v) {entries : List (String × Json)}
    (hagains : List.Forall₂ (EntryAgain v.object) v.fields entries)
    (hnodup : (Assoc.keys entries).Nodup) :
    selectionsApplying (Json.typename? entries) v.selections = v.fields := by
  cases hfragment : v.selections.any Selection.isFragment with
  | false => exact selectionsApplying_eq_of_no_fragment hfragment _ _
  | true =>
    obtain ⟨field, value, hf, hresponse, hkey, hvalue⟩ := exists_typename hroot hv hfragment
    obtain ⟨⟨name, json⟩, hmem, hagain⟩ := exists_entry_of_again hagains hf
    obtain ⟨value', hvalue', hequal⟩ := hagain.data
    have hname : name = Json.typenameKey := hagain.name.trans hresponse
    have hsame : value' = value := by
      rw [hresponse] at hvalue'
      exact Option.some.inj (hvalue'.symm.trans hvalue)
    subst hname hsame
    rw [Shape.restrict_leaf] at hequal
    rw [Json.typename?, Assoc.get?_eq_some_of_mem hnodup hmem, Option.bind_some,
      Json.asString?_eq_of_equal hequal, Visit.fields, Json.typename?, hvalue, Option.bind_some]

/-- An object that was taken apart is put together again. -/
theorem objectOf_again (hc : c.resolver.NeverRedirects) (hroot : Readable c root)
    (hheld : ∀ v, Reaches c root v → HeldIn c source v) {v : Visit} (hv : Reaches c root v)
    {fields : List (String × FieldValue)} {children : Pieces}
    (h : FieldsOf c v.key v.object v.fields fields children)
    (hshapes : ∀ f ∈ v.fields, ShapeReadAgain c source root f.2) :
    ∃ members trace, objectOf source v.key
        (fun r => selectionsEntries (contextOf c source) r v.selections) = .ok (members, trace) ∧
      ReadAgain (.object v.selections) (.object v.object)
        (Normalization.objectPieces v.key fields children) (.object members) trace := by
  obtain ⟨r, hsource, hr⟩ := hheld v hv
  obtain ⟨entries, trace, hentries, hagains, hkeys, horder⟩ :=
    entriesOf_again hc hv h (fun f hf => hf) (hroot.present v hv) hshapes hr
  have hnodup : (Assoc.keys entries).Nodup := by
    rw [keys_eq_of_again hagains]
    exact hroot.distinct v hv
  refine ⟨entries, ⟨[], [(v.key, r)]⟩ ++ trace, ?_, ?_, ?_, ?_, ?_⟩
  · rw [objectOf_eq_ok_iff]
    refine ⟨r, entries, trace, hsource, selectionsEntries_eq_ok_iff.mpr ?_, ?_, rfl⟩
    · rwa [selectionsApplying_recordTypename? hroot hv hr]
    · exact (Json.mergeMembers_nil hnodup).symm
  · rw [Shape.restrict_object]
    exact Json.equal_object_of_forall₂ hnodup (forall₂_restrictField hagains)
  · rw [Shape.restrict_object, selectionsApplying_typename?_entries hroot hv hagains hnodup,
      filterMap_restrictField_self hagains fun entry hentry =>
        Assoc.get?_eq_some_of_mem hnodup hentry]
  · exact hkeys
  · simp only [Normalization.objectPieces, Trace.loaded_append, List.map_cons, List.map_append,
      List.map_nil, Normalization.key_recordOf, List.singleton_append]
    exact horder.cons_concat v.key

theorem shapeReadAgain (hc : c.resolver.NeverRedirects) (hroot : Readable c root)
    (hheld : ∀ v, Reaches c root v → HeldIn c source v) (shape : Shape) :
    ShapeReadAgain c source root shape := by
  induction shape using Shape.inductionOn with
  | leaf => exact shapeReadAgain_leaf
  | list item ih =>
    intro field path value written pieces h hreaches r stored hstored
    rcases Normalization.shapeValue_list_eq_ok h with
      ⟨rfl, rfl, rfl⟩ | ⟨items, values, rfl, hitems, rfl⟩
    · exact readAgain_null hstored r field
    · obtain ⟨kept, rfl, hkept⟩ := eq_list_of_beq hstored
      have hinside : ∀ index x v, items[index]? = some x →
          Meets c field item (path.item (0 + index)) x v → Reaches c root v := by
        intro index x v hx hmeets
        rw [Nat.zero_add] at hmeets
        exact hreaches v (.item hx hmeets)
      obtain ⟨jsons, trace, hjsons, hagain⟩ := itemsOf_again ih hitems hinside r hkept
      exact ⟨.array jsons, trace,
        shapeValue_list_eq_ok_iff.mpr (.inr ⟨kept, jsons, rfl, rfl, hjsons⟩), hagain⟩
  | object selections ih =>
    intro field path value written pieces h hreaches r stored hstored
    rcases Normalization.shapeValue_object_eq_ok h with
      ⟨rfl, rfl, rfl⟩ | ⟨members, key, fields, children, rfl, rfl, hfields, rfl, rfl⟩
    · exact readAgain_null hstored r field
    · obtain rfl := eq_reference_of_beq hstored
      have hv := hreaches _ Meets.object
      obtain ⟨read, trace, hread, hagain⟩ := objectOf_again hc hroot hheld hv hfields (ih _)
      exact ⟨.object read, trace,
        shapeValue_object_eq_ok_iff.mpr (.inr ⟨_, read, rfl, rfl, hread⟩), hagain⟩

end Reading

/-- If a source holds all that was written of a response, the response is read again. -/
theorem readData_again {c : Normalization.Context} (hc : c.resolver.NeverRedirects)
    {root : Normalization.Visit} (hroot : Normalization.Readable c root) {source : RecordSource}
    (hheld : ∀ v, Normalization.Reaches c root v → Reading.HeldIn c source v) {taken : Pieces}
    (htaken : Normalization.pieces c root.key root.selections root.object = .ok taken) :
    ∃ result, readData source c.resolver c.vars root.key root.selections = .ok result ∧
      (Json.object result.data ==
        (Shape.object root.selections).restrict (.object root.object)) = true ∧
      (Shape.object root.selections).restrict (.object result.data) = .object result.data ∧
      result.dependentKeys = KeySet.ofList taken.fieldKeys ∧
      Assoc.keys result.records = Assoc.keys (RecordTable.ofRecords taken.records) := by
  obtain ⟨fields, children, hfields, rfl⟩ := Normalization.pieces_eq_ok htaken
  obtain ⟨members, trace, hread, hagain⟩ := Reading.objectOf_again hc hroot hheld .refl hfields
    fun f _ => Reading.shapeReadAgain hc hroot hheld f.2
  refine ⟨⟨members, KeySet.ofList trace.fieldKeys, Assoc.ofEntries trace.loaded⟩,
    readData_eq_ok_iff.mpr ⟨trace, hread, rfl, rfl⟩, hagain.data, hagain.ordered, ?_, ?_⟩
  · refine KeySet.ext fun k => ?_
    rw [KeySet.mem_ofList, KeySet.mem_ofList, hagain.fieldKeys]
  · rw [Assoc.ofEntries, Assoc.keys_insertAll, RecordTable.ofRecords, RecordTable.keys_mergeAll]
    exact (hagain.order []).symm

end GraphClient
