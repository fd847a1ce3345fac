import GraphClient.Proofs.Record.WellFormed
import GraphClient.Proofs.Selection.Walk

/-!
# Reading well-formed records

From well-formed records only well-formed data is read, whatever the selections are: a scalar is read
as it is stored, and the entries of an object are merged into one member for each name. So data that
was read is equal to itself, which it would not be if an object repeated a key.
-/

namespace GraphClient

namespace Json

theorem WellFormed.insert {members : Object} (h : (object members).WellFormed) (name : String)
    {value : Json} (hvalue : value.WellFormed) :
    (object (Assoc.insert members name value)).WellFormed := by
  refine ⟨Assoc.nodup_keys_insert h.1 name value, wellFormedMembers_iff.mpr fun m hm => ?_⟩
  rcases Assoc.mem_of_mem_insert hm with hold | rfl
  · exact wellFormedMembers_iff.mp h.2 m hold
  · exact hvalue

mutual

theorem wellFormed_mergeMember {members : Object} (h : (object members).WellFormed)
    (name : String) : ∀ {value : Json}, value.WellFormed →
      (object (mergeMember members name value)).WellFormed
  | object incoming, hvalue => by
    rw [mergeMember]
    split
    · next existing hexisting =>
      exact h.insert name (wellFormed_mergeMembers (h.of_get? hexisting) hvalue.2)
    · exact h.insert name hvalue
  | null, hvalue => h.insert name hvalue
  | bool _, hvalue => h.insert name hvalue
  | number _, hvalue => h.insert name hvalue
  | string _, hvalue => h.insert name hvalue
  | array _, hvalue => h.insert name hvalue

/-- The names that come in may be repeated. -/
theorem wellFormed_mergeMembers {members : Object} (h : (object members).WellFormed) :
    ∀ {incoming : List (String × Json)}, WellFormedMembers incoming →
      (object (mergeMembers members incoming)).WellFormed
  | [], _ => h
  | (name, _) :: _, hincoming =>
    wellFormed_mergeMembers (wellFormed_mergeMember h name hincoming.1) hincoming.2

end

end Json

/-- Only well-formed records are found. -/
def RecordSource.WellFormed (source : RecordSource) : Prop :=
  ∀ key r, source key = some r → r.WellFormed

namespace Reading

variable {c : Context}

/-- Of well-formed values a shape reads well-formed data. -/
def ReadsWellFormed (c : Context) (shape : Shape) : Prop :=
  ∀ {r field stored value trace}, shapeValue c r field shape stored = .ok (value, trace) →
    stored.WellFormed → value.WellFormed

theorem wellFormed_fieldValue {shape : Shape} (hshape : ReadsWellFormed c shape) {r : Record}
    (hr : r.WellFormed) {field : Field} {value : Json} {trace : Trace}
    (h : fieldValue c r field shape.isObject (shapeValue c r field shape) = .ok (value, trace)) :
    value.WellFormed := by
  rw [fieldValue] at h
  split at h
  · exact hshape h trivial
  · cases hfield : r.field? (field.cacheKey c.vars) with
    | some stored =>
      obtain ⟨rest, hvalue, -⟩ := (storedField_of_some hfield).mp h
      exact hshape hvalue (hr.values _ _ hfield)
    | none =>
      obtain ⟨-, rfl, -⟩ := (storedField_of_none hfield).mp h
      trivial

theorem EntriesOf.wellFormed {r : Record} (hr : r.WellFormed) {fs : List (Field × Shape)}
    (hshapes : ∀ f ∈ fs, ReadsWellFormed c f.2) {entries : List (String × Json)} {trace : Trace}
    (h : EntriesOf c r fs entries trace) : Json.WellFormedMembers entries := by
  induction h with
  | nil => trivial
  | cons hvalue _ ih =>
    obtain ⟨hshape, hshapes⟩ := List.forall_mem_cons.mp hshapes
    exact ⟨wellFormed_fieldValue hshape hr hvalue, ih hshapes⟩

theorem wellFormed_objectOf (hsource : c.source.WellFormed) {selections : List Selection}
    (hshapes : ∀ typename, ∀ f ∈ selectionsApplying typename selections, ReadsWellFormed c f.2)
    {key : RecordKey} {members : Json.Object} {trace : Trace}
    (h : objectOf c.source key (fun r => selectionsEntries c r selections) = .ok (members, trace)) :
    (Json.object members).WellFormed := by
  obtain ⟨r, entries, rest, hfound, hentries, rfl, -⟩ := objectOf_eq_ok_iff.mp h
  have hwalk := selectionsEntries_eq_ok_iff.mp hentries
  have hmembers := hwalk.wellFormed (hsource key r hfound) (hshapes _)
  have hempty : (Json.object []).WellFormed := ⟨List.nodup_nil, trivial⟩
  exact Json.wellFormed_mergeMembers hempty hmembers

theorem wellFormed_itemsOf {item : FieldValue → Except ReadError (Json × Trace)}
    (hitem : ∀ {stored value trace}, item stored = .ok (value, trace) → stored.WellFormed →
      value.WellFormed) {items : List FieldValue} {values : List Json} {trace : Trace}
    (h : itemsOf item items = .ok (values, trace)) (hitems : FieldValue.WellFormedItems items) :
    Json.WellFormedItems values := by
  induction items generalizing values trace with
  | nil =>
    cases h
    trivial
  | cons x xs ih =>
    obtain ⟨value, others, first, rest, hvalue, hothers, rfl, rfl⟩ := itemsOf_cons_eq_ok_iff.mp h
    exact ⟨hitem hvalue hitems.1, ih hothers hitems.2⟩

theorem readsWellFormed (hsource : c.source.WellFormed) (shape : Shape) :
    ReadsWellFormed c shape := by
  induction shape using Shape.inductionOn with
  | leaf =>
    intro r field stored value trace h hstored
    obtain ⟨rfl, -⟩ := shapeValue_leaf_eq_ok_iff.mp h
    exact hstored
  | list item ih =>
    intro r field stored value trace h hstored
    rcases shapeValue_list_eq_ok_iff.mp h with ⟨-, rfl, -⟩ | ⟨items, values, rfl, rfl, hitems⟩
    · trivial
    · exact wellFormed_itemsOf ih hitems hstored
  | object selections ih =>
    intro r field stored value trace h hstored
    rcases shapeValue_object_eq_ok_iff.mp h with ⟨-, rfl, -⟩ | ⟨key, members, -, rfl, hmembers⟩
    · trivial
    · exact wellFormed_objectOf hsource ih hmembers

end Reading

theorem wellFormed_readData {source : RecordSource} (hsource : source.WellFormed)
    {resolver : KeyResolver} {vars : Json.Object} {root : RecordKey} {selections : List Selection}
    {result : ReadResult} (h : readData source resolver vars root selections = .ok result) :
    (Json.object result.data).WellFormed := by
  obtain ⟨trace, hobject, -, -⟩ := readData_eq_ok_iff.mp h
  exact Reading.wellFormed_objectOf (c := ⟨source, resolver, vars⟩) hsource
    (fun _ f _ => Reading.readsWellFormed hsource f.2) hobject

end GraphClient
