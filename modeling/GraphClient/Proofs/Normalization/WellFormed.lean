import GraphClient.Proofs.Record.WellFormed
import GraphClient.Proofs.Selection.Walk

/-!
# Normalizing well-formed data

No object of the data of a response repeats a key. Then every value that is stored is well formed,
and so is the table of the records into which the data is taken apart: the record of an object is
built by setting one field after the other, and records of one key are merged.
-/

namespace GraphClient

/-- Every record to be merged is well formed. -/
def Pieces.WellFormed (pieces : Pieces) : Prop := ∀ r ∈ pieces.records, r.WellFormed

namespace Pieces

theorem wellFormed_fieldKeys (keys : List String) : WellFormed ⟨[], keys⟩ := nofun

theorem wellFormed_empty : WellFormed ∅ := wellFormed_fieldKeys []

theorem wellFormed_append {a b : Pieces} : (a ++ b).WellFormed ↔ a.WellFormed ∧ b.WellFormed := by
  simp only [WellFormed, records_append, List.forall_mem_append]

theorem WellFormed.append {a b : Pieces} (ha : a.WellFormed) (hb : b.WellFormed) :
    (a ++ b).WellFormed :=
  wellFormed_append.mpr ⟨ha, hb⟩

end Pieces

namespace Normalization

variable {c : Context}

theorem wellFormed_foldl_setField {r : Record} (h : r.WellFormed)
    {fields : List (String × FieldValue)} (hfields : ∀ f ∈ fields, f.2.WellFormed) :
    (fields.foldl (fun r f => r.setField f.1 f.2) r).WellFormed := by
  induction fields generalizing r with
  | nil => exact h
  | cons f fs ih =>
    obtain ⟨hf, hfs⟩ := List.forall_mem_cons.mp hfields
    exact ih (h.setField f.1 hf) hfs

theorem wellFormed_recordOf (key : RecordKey) {fields : List (String × FieldValue)}
    (h : ∀ f ∈ fields, f.2.WellFormed) : (recordOf key fields).WellFormed :=
  wellFormed_foldl_setField (Record.wellFormed_empty key) h

theorem wellFormed_objectPieces (key : RecordKey) {fields : List (String × FieldValue)}
    (h : ∀ f ∈ fields, f.2.WellFormed) {children : Pieces} (hchildren : children.WellFormed) :
    (objectPieces key fields children).WellFormed := by
  intro r hr
  simp only [objectPieces, List.mem_cons, List.mem_append, List.not_mem_nil, or_false] at hr
  rcases hr with rfl | hr | rfl
  · exact Record.wellFormed_empty key
  · exact hchildren r hr
  · exact wellFormed_recordOf key h

/-- A shape takes well-formed values to well-formed records. -/
def KeepsWellFormed (c : Context) (shape : Shape) : Prop :=
  ∀ {field path value stored pieces}, shapeValue c field shape path value = .ok (stored, pieces) →
    value.WellFormed → stored.WellFormed ∧ pieces.WellFormed

theorem FieldsOf.wellFormed {key : RecordKey} {object : Json.Object} {fs : List (Field × Shape)}
    {fields : List (String × FieldValue)} {pieces : Pieces}
    (h : FieldsOf c key object fs fields pieces) (hshapes : ∀ f ∈ fs, KeepsWellFormed c f.2)
    (hobject : (Json.object object).WellFormed) :
    (∀ f ∈ fields, f.2.WellFormed) ∧ pieces.WellFormed := by
  induction h with
  | nil => exact ⟨nofun, Pieces.wellFormed_empty⟩
  | absent _ _ ih => exact ih (List.forall_mem_cons.mp hshapes).2
  | present hsome hvalue _ ih =>
    obtain ⟨hshape, hshapes⟩ := List.forall_mem_cons.mp hshapes
    obtain ⟨hstored, hinner⟩ := hshape hvalue (hobject.of_get? hsome)
    obtain ⟨hfields, hpieces⟩ := ih hshapes
    exact ⟨List.forall_mem_cons.mpr ⟨hstored, hfields⟩,
      (hinner.append (Pieces.wellFormed_fieldKeys _)).append hpieces⟩

theorem wellFormed_itemValues {item : Shape} (hitem : KeepsWellFormed c item) {field : Field}
    {path : RecordKey} {index : Nat} {items : List Json} {values : List FieldValue}
    {pieces : Pieces}
    (h : itemValues (shapeValue c field item) path index items = .ok (values, pieces))
    (hitems : Json.WellFormedItems items) :
    FieldValue.WellFormedItems values ∧ pieces.WellFormed := by
  induction items generalizing index values pieces with
  | nil =>
    cases h
    exact ⟨trivial, Pieces.wellFormed_empty⟩
  | cons x xs ih =>
    obtain ⟨first, others, inner, more, hx, hxs, rfl, rfl⟩ := itemValues_cons_eq_ok h
    obtain ⟨hfirst, hinner⟩ := hitem hx hitems.1
    obtain ⟨hothers, hmore⟩ := ih hxs hitems.2
    exact ⟨⟨hfirst, hothers⟩, hinner.append hmore⟩

theorem keepsWellFormed (c : Context) (shape : Shape) : KeepsWellFormed c shape := by
  induction shape using Shape.inductionOn with
  | leaf =>
    intro field path value stored pieces h hvalue
    rw [shapeValue_leaf] at h
    cases h
    exact ⟨hvalue, Pieces.wellFormed_empty⟩
  | list item ih =>
    intro field path value stored pieces h hvalue
    rcases shapeValue_list_eq_ok h with ⟨rfl, rfl, rfl⟩ | ⟨items, values, rfl, hitems, rfl⟩
    · exact ⟨trivial, Pieces.wellFormed_empty⟩
    · exact wellFormed_itemValues ih hitems hvalue
  | object selections ih =>
    intro field path value stored pieces h hvalue
    rcases shapeValue_object_eq_ok h with
      ⟨rfl, rfl, rfl⟩ | ⟨members, key, fields, children, rfl, -, hfields, rfl, rfl⟩
    · exact ⟨trivial, Pieces.wellFormed_empty⟩
    · obtain ⟨hwritten, hchildren⟩ := hfields.wellFormed (ih _) hvalue
      exact ⟨trivial, wellFormed_objectPieces key hwritten hchildren⟩

theorem wellFormed_pieces {root : RecordKey} {selections : List Selection} {data : Json.Object}
    {taken : Pieces} (h : pieces c root selections data = .ok taken)
    (hdata : (Json.object data).WellFormed) : taken.WellFormed := by
  obtain ⟨fields, children, hfields, rfl⟩ := pieces_eq_ok h
  obtain ⟨hwritten, hchildren⟩ := hfields.wellFormed (fun f _ => keepsWellFormed c f.2) hdata
  exact wellFormed_objectPieces root hwritten hchildren

end Normalization

/-- The records of well-formed data form a well-formed table. -/
theorem wellFormed_normalize {resolver : KeyResolver} {vars : Json.Object} {root : RecordKey}
    {selections : List Selection} {data : Json.Object} {normalized : Normalized}
    (h : normalize resolver vars root selections data = .ok normalized)
    (hdata : (Json.object data).WellFormed) : normalized.records.WellFormed := by
  obtain ⟨taken, htaken, hrecords, -⟩ := normalize_eq_ok h
  rw [hrecords]
  exact RecordTable.wellFormed_nil.mergeAll (Normalization.wellFormed_pieces htaken hdata)

end GraphClient
