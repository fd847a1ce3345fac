import GraphClient.Proofs.Record.References
import GraphClient.Proofs.Selection.Walk

/-!
# References in the records of a response

Where data holds an object, the record of the outer object holds a reference. The key that it names
is that of the pieces of the inner object, of which the very first is an empty record under that key.
So the pieces of any data are closed in themselves, whatever the resolver and the data are, also when
two objects share a key or a later field replaces the reference of an earlier one.
-/

namespace GraphClient

namespace Pieces

/-- What these records refer to is the key of one of them. -/
def Closed (pieces : Pieces) : Prop := Record.ClosedList pieces.records

/-- What the value refers to is the key of one of the records. -/
def Covers (pieces : Pieces) (value : FieldValue) : Prop :=
  ∀ target, value.RefersTo target → ∃ r ∈ pieces.records, r.key = target

theorem closed_fieldKeys (keys : List String) : Closed ⟨[], keys⟩ := nofun

theorem closed_empty : Closed ∅ := closed_fieldKeys []

theorem covers_scalar (pieces : Pieces) (value : Json) : pieces.Covers (.scalar value) :=
  fun _ h => absurd h FieldValue.not_refersTo_scalar

theorem Covers.mono {a b : Pieces} {value : FieldValue} (h : a.Covers value)
    (hsub : ∀ r ∈ a.records, r ∈ b.records) : b.Covers value := by
  intro target hrefers
  obtain ⟨r, hr, hkey⟩ := h target hrefers
  exact ⟨r, hsub r hr, hkey⟩

theorem Covers.append_left {a : Pieces} {value : FieldValue} (h : a.Covers value) (b : Pieces) :
    (a ++ b).Covers value :=
  h.mono fun _ hr => List.mem_append_left _ hr

theorem Covers.append_right {b : Pieces} {value : FieldValue} (h : b.Covers value) (a : Pieces) :
    (a ++ b).Covers value :=
  h.mono fun _ hr => List.mem_append_right _ hr

theorem Closed.append {a b : Pieces} (ha : a.Closed) (hb : b.Closed) : (a ++ b).Closed := by
  intro r hr target hrefers
  rcases List.mem_append.mp hr with hr | hr
  · obtain ⟨r', hr', hkey⟩ := ha r hr target hrefers
    exact ⟨r', List.mem_append_left _ hr', hkey⟩
  · obtain ⟨r', hr', hkey⟩ := hb r hr target hrefers
    exact ⟨r', List.mem_append_right _ hr', hkey⟩

end Pieces

namespace Normalization

variable {c : Context}

theorem refersTo_of_foldl_setField {r : Record} {fields : List (String × FieldValue)}
    {target : RecordKey} (h : (fields.foldl (fun r f => r.setField f.1 f.2) r).RefersTo target) :
    r.RefersTo target ∨ ∃ f ∈ fields, f.2.RefersTo target := by
  induction fields generalizing r with
  | nil => exact .inl h
  | cons f fs ih =>
    rcases ih h with hset | ⟨f', hf', hrefers⟩
    · exact hset.of_setField.imp_right fun hvalue => ⟨f, List.mem_cons_self, hvalue⟩
    · exact .inr ⟨f', List.mem_cons_of_mem f hf', hrefers⟩

theorem refersTo_of_recordOf {key : RecordKey} {fields : List (String × FieldValue)}
    {target : RecordKey} (h : (recordOf key fields).RefersTo target) :
    ∃ f ∈ fields, f.2.RefersTo target :=
  (refersTo_of_foldl_setField h).resolve_left Record.not_refersTo_empty

theorem closed_objectPieces (key : RecordKey) {fields : List (String × FieldValue)}
    {children : Pieces} (hfields : ∀ f ∈ fields, children.Covers f.2) (hchildren : children.Closed) :
    (objectPieces key fields children).Closed := by
  have hsub : ∀ r ∈ children.records, r ∈ (objectPieces key fields children).records :=
    fun r hr => List.mem_cons_of_mem _ (List.mem_append_left _ hr)
  intro r hr target hrefers
  simp only [objectPieces, List.mem_cons, List.mem_append, List.not_mem_nil, or_false] at hr
  rcases hr with rfl | hr | rfl
  · exact absurd hrefers Record.not_refersTo_empty
  · obtain ⟨r', hr', hkey⟩ := hchildren r hr target hrefers
    exact ⟨r', hsub r' hr', hkey⟩
  · obtain ⟨f, hf, hvalue⟩ := refersTo_of_recordOf hrefers
    exact (hfields f hf).mono hsub target hvalue

theorem covers_objectPieces (key : RecordKey) (fields : List (String × FieldValue))
    (children : Pieces) : (objectPieces key fields children).Covers (.reference key) := by
  intro target hrefers
  cases hrefers
  exact ⟨⟨key, []⟩, List.mem_cons_self, rfl⟩

/-- A shape takes every value to pieces that are closed and cover what is stored for it. -/
def TakesClosed (c : Context) (shape : Shape) : Prop :=
  ∀ {field path value stored pieces}, shapeValue c field shape path value = .ok (stored, pieces) →
    pieces.Covers stored ∧ pieces.Closed

theorem FieldsOf.closed {key : RecordKey} {object : Json.Object} {fs : List (Field × Shape)}
    {fields : List (String × FieldValue)} {pieces : Pieces}
    (h : FieldsOf c key object fs fields pieces) (hshapes : ∀ f ∈ fs, TakesClosed c f.2) :
    (∀ f ∈ fields, pieces.Covers f.2) ∧ pieces.Closed := by
  induction h with
  | nil => exact ⟨nofun, Pieces.closed_empty⟩
  | absent _ _ ih => exact ih (List.forall_mem_cons.mp hshapes).2
  | present _ hvalue _ ih =>
    obtain ⟨hshape, hshapes⟩ := List.forall_mem_cons.mp hshapes
    obtain ⟨hcovers, hinner⟩ := hshape hvalue
    obtain ⟨hfields, hpieces⟩ := ih hshapes
    refine ⟨List.forall_mem_cons.mpr ⟨?_, fun f hf => (hfields f hf).append_right _⟩, ?_⟩
    · exact (hcovers.append_left _).append_left _
    · exact (hinner.append (Pieces.closed_fieldKeys _)).append hpieces

theorem closed_itemValues {item : Shape} (hitem : TakesClosed c item) {field : Field}
    {path : RecordKey} {index : Nat} {items : List Json} {values : List FieldValue}
    {pieces : Pieces}
    (h : itemValues (shapeValue c field item) path index items = .ok (values, pieces)) :
    (∀ x ∈ values, pieces.Covers x) ∧ pieces.Closed := by
  induction items generalizing index values pieces with
  | nil =>
    cases h
    exact ⟨nofun, Pieces.closed_empty⟩
  | cons x xs ih =>
    obtain ⟨first, others, inner, more, hx, hxs, rfl, rfl⟩ := itemValues_cons_eq_ok h
    obtain ⟨hfirst, hinner⟩ := hitem hx
    obtain ⟨hothers, hmore⟩ := ih hxs
    refine ⟨List.forall_mem_cons.mpr ⟨hfirst.append_left _, fun y hy => ?_⟩, hinner.append hmore⟩
    exact (hothers y hy).append_right _

theorem takesClosed (c : Context) (shape : Shape) : TakesClosed c shape := by
  induction shape using Shape.inductionOn with
  | leaf =>
    intro field path value stored pieces h
    rw [shapeValue_leaf] at h
    cases h
    exact ⟨Pieces.covers_scalar _ value, Pieces.closed_empty⟩
  | list item ih =>
    intro field path value stored pieces h
    rcases shapeValue_list_eq_ok h with ⟨-, rfl, rfl⟩ | ⟨items, values, -, hitems, rfl⟩
    · exact ⟨Pieces.covers_scalar _ .null, Pieces.closed_empty⟩
    · obtain ⟨hvalues, hpieces⟩ := closed_itemValues ih hitems
      refine ⟨fun target hrefers => ?_, hpieces⟩
      cases hrefers with
      | item hx hrefers => exact hvalues _ hx target hrefers
  | object selections ih =>
    intro field path value stored pieces h
    rcases shapeValue_object_eq_ok h with
      ⟨-, rfl, rfl⟩ | ⟨members, key, fields, children, -, -, hfields, rfl, rfl⟩
    · exact ⟨Pieces.covers_scalar _ .null, Pieces.closed_empty⟩
    · obtain ⟨hcovered, hchildren⟩ := hfields.closed (ih _)
      exact ⟨covers_objectPieces key fields children,
        closed_objectPieces key hcovered hchildren⟩

theorem closed_pieces {root : RecordKey} {selections : List Selection} {data : Json.Object}
    {taken : Pieces} (h : pieces c root selections data = .ok taken) : taken.Closed := by
  obtain ⟨fields, children, hfields, rfl⟩ := pieces_eq_ok h
  obtain ⟨hcovered, hchildren⟩ := hfields.closed fun f _ => takesClosed c f.2
  exact closed_objectPieces root hcovered hchildren

end Normalization

/-- The records of any data form a closed table. -/
theorem closed_normalize {resolver : KeyResolver} {vars : Json.Object} {root : RecordKey}
    {selections : List Selection} {data : Json.Object} {normalized : Normalized}
    (h : normalize resolver vars root selections data = .ok normalized) :
    normalized.records.Closed := by
  obtain ⟨taken, htaken, hrecords, -⟩ := normalize_eq_ok h
  rw [hrecords]
  exact RecordTable.closed_nil.mergeAll (Normalization.closed_pieces htaken)

end GraphClient
