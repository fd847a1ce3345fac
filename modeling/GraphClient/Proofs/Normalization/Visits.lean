import GraphClient.Proofs.Selection.Walk
import Mathlib.Logic.Relation

/-!
# The objects that are taken apart

A `Visit` is an object on the way, with the key of its record and what is asked of it. A visit leads
to another when a field that applies holds that object, directly or inside of lists; `Reaches` is the
closure of this. The current path is carried along, since it is the key of an object that has no
identity of its own.

Taking a response apart succeeds at every visit, and the records that come out are those of visits:
`Reaches.takenIn` says that every visit gives its record, `yielded_of_pieces` that nothing else does.
Several visits may have the same key; their records are merged. The data is `Readable` again when all
of them agree on the fields they share.
-/

namespace GraphClient.Normalization

/-- An object that is taken apart: the key of its record, what is asked of it, and its members. -/
structure Visit where
  key : RecordKey
  selections : List Selection
  object : Json.Object

/-- The fields that apply to the object of a visit. -/
def Visit.fields (v : Visit) : List (Field × Shape) :=
  selectionsApplying (Json.typename? v.object) v.selections

/-- The objects that a value of a shape holds, without those inside of them. -/
inductive Meets (c : Context) (field : Field) : Shape → RecordKey → Json → Visit → Prop
  | object {selections path members} :
      Meets c field (.object selections) path (.object members)
        ⟨(c.resolver.ofObject field members).getD path, selections, members⟩
  | item {shape path items index x v} :
      items[index]? = some x → Meets c field shape (path.item index) x v →
      Meets c field (.list shape) path (.array items) v

/-- A field that applies to the one object holds the other. -/
def Leads (c : Context) (v w : Visit) : Prop :=
  ∃ f ∈ v.fields, ∃ value, Assoc.get? v.object f.1.responseName = some value ∧
    Meets c f.1 f.2 (v.key.child (f.1.cacheKey c.vars)) value w

/-- The objects on the way from an object, itself included. -/
def Reaches (c : Context) : Visit → Visit → Prop := Relation.ReflTransGen (Leads c)

/-- A field of an object is stored under a name with a value. -/
def FieldWrites (c : Context) (key : RecordKey) (object : Json.Object) (f : Field × Shape)
    (name : String) (stored : FieldValue) : Prop :=
  f.1.cacheKey c.vars = name ∧ ∃ value pieces,
    Assoc.get? object f.1.responseName = some value ∧
      shapeValue c f.1 f.2 (key.child (f.1.cacheKey c.vars)) value = .ok (stored, pieces)

/-- A field that applies is stored under a name with a value. -/
def Writes (c : Context) (v : Visit) (name : String) (stored : FieldValue) : Prop :=
  ∃ f ∈ v.fields, FieldWrites c v.key v.object f name stored

/-- Data that can be read again as it was written. -/
structure Readable (c : Context) (root : Visit) : Prop where
  /-- No object lacks a field that applies. -/
  present : ∀ v, Reaches c root v → ∀ f ∈ v.fields,
    (Assoc.get? v.object f.1.responseName).isSome = true
  /-- No two fields that apply to an object have the same response name. -/
  distinct : ∀ v, Reaches c root v → (v.fields.map fun f => f.1.responseName).Nodup
  /-- Where there is a fragment, the concrete type is asked for under its own name. -/
  typename : ∀ v, Reaches c root v → v.selections.any Selection.isFragment = true →
    ∃ field, .field field .leaf ∈ v.selections ∧ field.name = Json.typenameKey ∧
      field.responseName = Json.typenameKey ∧ field.arguments = []
  /-- What is written for one field of one record is equal. -/
  coherent : ∀ v w, Reaches c root v → Reaches c root w → v.key = w.key →
    ∀ name a b, Writes c v name a → Writes c w name b → (a == b) = true

variable {c : Context}

theorem FieldsOf.mem_iff {key : RecordKey} {object : Json.Object} {fs : List (Field × Shape)}
    {fields : List (String × FieldValue)} {pieces : Pieces}
    (h : FieldsOf c key object fs fields pieces) {name : String} {stored : FieldValue} :
    (name, stored) ∈ fields ↔ ∃ f ∈ fs, FieldWrites c key object f name stored := by
  induction h with
  | nil => simp
  | @absent field shape fs fields pieces hnone _ ih =>
    rw [ih]
    simp only [List.mem_cons, exists_eq_or_imp]
    refine (or_iff_right ?_).symm
    rintro ⟨-, value, inner, hsome, -⟩
    rw [hnone] at hsome
    cases hsome
  | @present field shape fs fields pieces value first inner hsome hvalue _ ih =>
    rw [List.mem_cons, ih]
    simp only [List.mem_cons, exists_eq_or_imp]
    refine or_congr_left ?_
    constructor
    · intro heq
      cases heq
      exact ⟨rfl, value, inner, hsome, hvalue⟩
    · rintro ⟨rfl, value', inner', hsome', hvalue'⟩
      cases hsome.symm.trans hsome'
      cases hvalue.symm.trans hvalue'
      rfl

/-- What a visit writes is what taking its object apart finds. -/
theorem writes_iff_mem {v : Visit} {fields : List (String × FieldValue)} {children : Pieces}
    (h : selectionsFields c v.key v.object v.selections = .ok (fields, children)) {name : String}
    {stored : FieldValue} : Writes c v name stored ↔ (name, stored) ∈ fields :=
  (fieldsOf_of_selectionsFields h).mem_iff.symm

theorem FieldsOf.exists_shapeValue {key : RecordKey} {object : Json.Object}
    {fs : List (Field × Shape)} {fields : List (String × FieldValue)} {pieces : Pieces}
    (h : FieldsOf c key object fs fields pieces) {f : Field × Shape} (hf : f ∈ fs) {value : Json}
    (hvalue : Assoc.get? object f.1.responseName = some value) :
    ∃ stored inner,
      shapeValue c f.1 f.2 (key.child (f.1.cacheKey c.vars)) value = .ok (stored, inner) ∧
        inner.records ⊆ pieces.records := by
  induction h with
  | nil => cases hf
  | absent hnone _ ih =>
    rcases List.mem_cons.mp hf with rfl | hf
    · rw [hnone] at hvalue
      cases hvalue
    · exact ih hf
  | present hsome hstored _ ih =>
    rcases List.mem_cons.mp hf with rfl | hf
    · cases hsome.symm.trans hvalue
      refine ⟨_, _, hstored, fun r hr => ?_⟩
      simp [hr]
    · obtain ⟨stored, inner, hinner, hsub⟩ := ih hf
      exact ⟨stored, inner, hinner, fun r hr => List.mem_append_right _ (hsub hr)⟩

theorem exists_itemValue {value : RecordKey → Json → Except ShapeMismatch (FieldValue × Pieces)}
    {path : RecordKey} {start : Nat} {items : List Json} {values : List FieldValue}
    {pieces : Pieces} (h : itemValues value path start items = .ok (values, pieces))
    {index : Nat} {x : Json} (hx : items[index]? = some x) :
    ∃ stored inner, value (path.item (start + index)) x = .ok (stored, inner) ∧
      inner.records ⊆ pieces.records := by
  induction items generalizing start index values pieces with
  | nil => cases hx
  | cons y ys ih =>
    obtain ⟨first, others, inner, more, hy, hys, rfl, rfl⟩ := itemValues_cons_eq_ok h
    cases index with
    | zero =>
      cases hx
      exact ⟨first, inner, hy, fun r hr => List.mem_append_left _ hr⟩
    | succ index =>
      obtain ⟨stored, last, hstored, hsub⟩ := ih hys hx
      rw [show start + (index + 1) = start + 1 + index by omega]
      exact ⟨stored, last, hstored, fun r hr => List.mem_append_right _ (hsub hr)⟩

/-- A visit gives its records. -/
def Visit.TakenIn (c : Context) (v : Visit) (records : List Record) : Prop :=
  ∃ fields children, FieldsOf c v.key v.object v.fields fields children ∧
    (objectPieces v.key fields children).records ⊆ records

theorem Meets.takenIn {field : Field} {shape : Shape} {path : RecordKey} {value : Json} {v : Visit}
    (h : Meets c field shape path value v) {stored : FieldValue} {pieces : Pieces}
    (hvalue : shapeValue c field shape path value = .ok (stored, pieces)) :
    v.TakenIn c pieces.records := by
  induction h generalizing stored pieces with
  | object =>
    rcases shapeValue_object_eq_ok hvalue with
      ⟨hnull, -⟩ | ⟨members, key, fields, children, heq, rfl, hfields, rfl, rfl⟩
    · cases hnull
    · cases heq
      exact ⟨fields, children, hfields, fun r hr => hr⟩
  | item hx _ ih =>
    rcases shapeValue_list_eq_ok hvalue with ⟨hnull, -⟩ | ⟨items, values, heq, hitems, rfl⟩
    · cases hnull
    · cases heq
      obtain ⟨first, inner, hinner, hsub⟩ := exists_itemValue hitems hx
      rw [Nat.zero_add] at hinner
      obtain ⟨fields, children, hfields, hrecords⟩ := ih hinner
      exact ⟨fields, children, hfields, fun r hr => hsub (hrecords hr)⟩

/-- Every object on the way gives its records. -/
theorem Reaches.takenIn {root v : Visit} (h : Reaches c root v) {records : List Record}
    (hroot : root.TakenIn c records) : v.TakenIn c records := by
  induction h with
  | refl => exact hroot
  | tail _ hlead ih =>
    obtain ⟨fields, children, hfields, hrecords⟩ := ih
    obtain ⟨f, hf, value, hvalue, hmeets⟩ := hlead
    obtain ⟨stored, inner, hinner, hsub⟩ := hfields.exists_shapeValue hf hvalue
    obtain ⟨fields', children', hfields', hrecords'⟩ := hmeets.takenIn hinner
    refine ⟨fields', children', hfields', fun r hr => hrecords ?_⟩
    exact List.mem_cons_of_mem _ (List.mem_append_left _ (hsub (hrecords' hr)))

theorem field?_foldl_setField {r : Record} {fields : List (String × FieldValue)} {name : String}
    {stored : FieldValue}
    (h : (fields.foldl (fun r f => r.setField f.1 f.2) r).field? name = some stored) :
    r.field? name = some stored ∨ (name, stored) ∈ fields := by
  induction fields generalizing r with
  | nil => exact .inl h
  | cons f fs ih =>
    rcases ih h with hset | hmem
    · by_cases hname : name = f.1
      · subst hname
        rw [Record.field?_setField_self, Option.some.injEq] at hset
        exact .inr (List.mem_cons.mpr (.inl (by rw [← hset])))
      · rw [Record.field?_setField_of_ne r f.2 hname] at hset
        exact .inl hset
    · exact .inr (List.mem_cons_of_mem f hmem)

theorem isSome_field?_foldl_setField {r : Record} {fields : List (String × FieldValue)}
    {name : String} (h : (r.field? name).isSome = true ∨ name ∈ fields.map Prod.fst) :
    ((fields.foldl (fun r f => r.setField f.1 f.2) r).field? name).isSome = true := by
  induction fields generalizing r with
  | nil => simpa using h
  | cons f fs ih =>
    rw [List.foldl_cons]
    refine ih ?_
    by_cases hname : name = f.1
    · subst hname
      exact .inl (by rw [Record.field?_setField_self]; rfl)
    · rw [Record.field?_setField_of_ne r f.2 hname]
      rcases h with h | h
      · exact .inl h
      · exact .inr ((List.mem_cons.mp h).resolve_left hname)

theorem key_foldl_setField (r : Record) (fields : List (String × FieldValue)) :
    (fields.foldl (fun r f => r.setField f.1 f.2) r).key = r.key := by
  induction fields generalizing r with
  | nil => rfl
  | cons f fs ih => rw [List.foldl_cons, ih, Record.key_setField]

@[simp] theorem key_recordOf (key : RecordKey) (fields : List (String × FieldValue)) :
    (recordOf key fields).key = key :=
  key_foldl_setField ⟨key, []⟩ fields

theorem mem_of_field?_recordOf {key : RecordKey} {fields : List (String × FieldValue)}
    {name : String} {stored : FieldValue} (h : (recordOf key fields).field? name = some stored) :
    (name, stored) ∈ fields := by
  rcases field?_foldl_setField h with hempty | hmem
  · cases hempty
  · exact hmem

/-- What a visit writes has its place in the records that the visit gives. -/
theorem Visit.TakenIn.exists_field {v : Visit} {records : List Record} (h : v.TakenIn c records)
    {name : String} {stored : FieldValue} (hwrites : Writes c v name stored) :
    ∃ r ∈ records, r.key = v.key ∧ (r.field? name).isSome = true := by
  obtain ⟨fields, children, hfields, hrecords⟩ := h
  have hmem : (name, stored) ∈ fields := hfields.mem_iff.mpr hwrites
  refine ⟨recordOf v.key fields, hrecords ?_, key_recordOf v.key fields, ?_⟩
  · simp [objectPieces]
  · exact isSome_field?_foldl_setField (.inr (List.mem_map.mpr ⟨_, hmem, rfl⟩))

/-- A record holds only what a visit writes. -/
structure Visit.Yields (c : Context) (v : Visit) (r : Record) : Prop where
  key : r.key = v.key
  field : ∀ name stored, r.field? name = some stored → Writes c v name stored

/-- The records of a value are those of visits from it. -/
def ShapeYields (c : Context) (shape : Shape) : Prop :=
  ∀ {field path value stored pieces}, shapeValue c field shape path value = .ok (stored, pieces) →
    ∀ r ∈ pieces.records, ∃ v w, Meets c field shape path value v ∧ Reaches c v w ∧ w.Yields c r

theorem FieldsOf.yielded {v : Visit} {fs : List (Field × Shape)}
    {fields : List (String × FieldValue)} {pieces : Pieces}
    (h : FieldsOf c v.key v.object fs fields pieces) (hfs : fs ⊆ v.fields)
    (hshapes : ∀ f ∈ v.fields, ShapeYields c f.2) :
    ∀ r ∈ pieces.records, ∃ w, Reaches c v w ∧ w.Yields c r := by
  induction h with
  | nil =>
    intro r hr
    cases hr
  | absent _ _ ih => exact ih fun f hf => hfs (List.mem_cons_of_mem _ hf)
  | present hsome hvalue _ ih =>
    intro r hr
    simp only [Pieces.records_append, List.append_nil, List.mem_append] at hr
    rcases hr with hr | hr
    · have hf := hfs List.mem_cons_self
      obtain ⟨w, w', hmeets, hreaches, hyields⟩ := hshapes _ hf hvalue r hr
      exact ⟨w', .head ⟨_, hf, _, hsome, hmeets⟩ hreaches, hyields⟩
    · exact ih (fun f hf => hfs (List.mem_cons_of_mem _ hf)) r hr

/-- The records of an object are those of the visit and of visits from it. -/
theorem yielded_of_fieldsOf {v : Visit} {fields : List (String × FieldValue)} {children : Pieces}
    (h : FieldsOf c v.key v.object v.fields fields children)
    (hshapes : ∀ f ∈ v.fields, ShapeYields c f.2) :
    ∀ r ∈ (objectPieces v.key fields children).records, ∃ w, Reaches c v w ∧ w.Yields c r := by
  intro r hr
  simp only [objectPieces, List.mem_cons, List.mem_append, List.not_mem_nil, or_false] at hr
  rcases hr with rfl | hr | rfl
  · exact ⟨v, .refl, rfl, nofun⟩
  · exact h.yielded (fun f hf => hf) hshapes r hr
  · exact ⟨v, .refl, key_recordOf v.key fields,
      fun name stored hname => h.mem_iff.mp (mem_of_field?_recordOf hname)⟩

theorem yielded_itemValues {item : Shape} (hitem : ShapeYields c item) {field : Field}
    {path : RecordKey} {start : Nat} {items : List Json} {values : List FieldValue}
    {pieces : Pieces}
    (h : itemValues (shapeValue c field item) path start items = .ok (values, pieces)) :
    ∀ r ∈ pieces.records, ∃ index x v w, items[index]? = some x ∧
      Meets c field item (path.item (start + index)) x v ∧ Reaches c v w ∧ w.Yields c r := by
  induction items generalizing start values pieces with
  | nil =>
    cases h
    intro r hr
    cases hr
  | cons x xs ih =>
    obtain ⟨first, others, inner, more, hx, hxs, rfl, rfl⟩ := itemValues_cons_eq_ok h
    intro r hr
    rcases List.mem_append.mp hr with hr | hr
    · obtain ⟨v, w, hmeets, hreaches⟩ := hitem hx r hr
      exact ⟨0, x, v, w, rfl, hmeets, hreaches⟩
    · obtain ⟨index, y, v, w, hy, hmeets, hreaches⟩ := ih hxs r hr
      rw [show start + 1 + index = start + (index + 1) by omega] at hmeets
      exact ⟨index + 1, y, v, w, hy, hmeets, hreaches⟩

theorem shapeYields (c : Context) (shape : Shape) : ShapeYields c shape := by
  induction shape using Shape.inductionOn with
  | leaf =>
    intro field path value stored pieces h r hr
    rw [shapeValue_leaf] at h
    cases h
    cases hr
  | list item ih =>
    intro field path value stored pieces h r hr
    rcases shapeValue_list_eq_ok h with ⟨rfl, rfl, rfl⟩ | ⟨items, values, rfl, hitems, rfl⟩
    · cases hr
    · obtain ⟨index, x, v, w, hx, hmeets, hreaches⟩ := yielded_itemValues ih hitems r hr
      rw [Nat.zero_add] at hmeets
      exact ⟨v, w, .item hx hmeets, hreaches⟩
  | object selections ih =>
    intro field path value stored pieces h r hr
    rcases shapeValue_object_eq_ok h with
      ⟨rfl, rfl, rfl⟩ | ⟨members, key, fields, children, rfl, rfl, hfields, rfl, rfl⟩
    · cases hr
    · obtain ⟨w, hw⟩ := yielded_of_fieldsOf (v := ⟨_, selections, members⟩) hfields (ih _) r hr
      exact ⟨_, w, .object, hw⟩

/-- Every object on the way gives its records to what data is taken apart into. -/
theorem Reaches.takenIn_pieces {root : RecordKey} {selections : List Selection}
    {data : Json.Object} {taken : Pieces} (h : pieces c root selections data = .ok taken)
    {v : Visit} (hv : Reaches c ⟨root, selections, data⟩ v) : v.TakenIn c taken.records := by
  obtain ⟨fields, children, hfields, rfl⟩ := pieces_eq_ok h
  exact hv.takenIn ⟨fields, children, hfields, fun r hr => hr⟩

/-- Every record into which data is taken apart is that of an object on the way. -/
theorem yielded_of_pieces {root : RecordKey} {selections : List Selection} {data : Json.Object}
    {taken : Pieces} (h : pieces c root selections data = .ok taken) :
    ∀ r ∈ taken.records, ∃ v, Reaches c ⟨root, selections, data⟩ v ∧ v.Yields c r := by
  obtain ⟨fields, children, hfields, rfl⟩ := pieces_eq_ok h
  exact yielded_of_fieldsOf (v := ⟨root, selections, data⟩) hfields fun f _ => shapeYields c f.2

end GraphClient.Normalization
