import GraphClient.Normalization
import GraphClient.Proofs.Selection.Applying
import GraphClient.Reading

/-!
# Walks along the fields that apply

Taking an object apart and reading a record go through the same list of fields, those that apply to
the concrete type. `FieldsOf` and `EntriesOf` describe a walk that succeeds, one field after the
other: what a field contributes is given by `shapeValue`, and no fragment is left. The theorems
`fieldsOf_of_selectionsFields`, with the converse `FieldsOf.selectionsFields`, and
`selectionsEntries_eq_ok_iff` say that the walks of the library are of this form.
-/

namespace GraphClient

theorem bind_eq_ok_iff {ε α β : Type} {x : Except ε α} {f : α → Except ε β} {b : β} :
    (x >>= f) = .ok b ↔ ∃ a, x = .ok a ∧ f a = .ok b := by
  constructor
  · intro h
    cases x with
    | error e => cases h
    | ok a => exact ⟨a, rfl, h⟩
  · rintro ⟨a, rfl, h⟩
    exact h

theorem bind_eq_error_iff {ε α β : Type} {x : Except ε α} {f : α → Except ε β} {e : ε} :
    (x >>= f) = .error e ↔ x = .error e ∨ ∃ a, x = .ok a ∧ f a = .error e := by
  constructor
  · intro h
    cases x with
    | error e' =>
      cases h
      exact .inl rfl
    | ok a => exact .inr ⟨a, rfl, h⟩
  · rintro (rfl | ⟨a, rfl, h⟩)
    · rfl
    · exact h

theorem exists_map_eq_ok_iff {ε α β : Type} {x : Except ε α} {f : α → β} :
    (∃ b, (x >>= fun a => pure (f a)) = .ok b) ↔ ∃ a, x = .ok a := by
  constructor
  · rintro ⟨b, h⟩
    obtain ⟨a, ha, -⟩ := bind_eq_ok_iff.mp h
    exact ⟨a, ha⟩
  · rintro ⟨a, ha⟩
    exact ⟨f a, bind_eq_ok_iff.mpr ⟨a, ha, rfl⟩⟩

theorem mapError_eq_ok_iff {ε ε' α : Type} {x : Except ε α} {f : ε → ε'} {a : α} :
    x.mapError f = .ok a ↔ x = .ok a := by
  cases x with
  | error e => exact iff_of_false (fun h => by cases h) fun h => by cases h
  | ok b =>
    constructor <;>
    · intro h
      cases h
      rfl

theorem mapError_eq_error_iff {ε ε' α : Type} {x : Except ε α} {f : ε → ε'} {e' : ε'} :
    x.mapError f = .error e' ↔ ∃ e, x = .error e ∧ e' = f e := by
  constructor
  · intro h
    cases x with
    | error e =>
      cases h
      exact ⟨e, rfl, rfl⟩
    | ok a => cases h
  · rintro ⟨e, rfl, rfl⟩
    rfl

theorem exists_eq_ok {ε α : Type} {x : Except ε α} (h : x.isOk = true) : ∃ a, x = .ok a := by
  cases x with
  | error e => cases h
  | ok a => exact ⟨a, rfl⟩

namespace Pieces

theorem append_assoc (a b c : Pieces) : a ++ b ++ c = a ++ (b ++ c) := by
  change Pieces.mk _ _ = Pieces.mk _ _
  simp

theorem append_empty (a : Pieces) : a ++ ∅ = a := by
  change Pieces.mk (a.records ++ []) (a.fieldKeys ++ []) = a
  simp

@[simp] theorem empty_append (a : Pieces) : ∅ ++ a = a := rfl

end Pieces

namespace Trace

theorem append_assoc (a b c : Trace) : a ++ b ++ c = a ++ (b ++ c) := by
  change Trace.mk _ _ = Trace.mk _ _
  simp

theorem append_empty (a : Trace) : a ++ ∅ = a := by
  change Trace.mk (a.fieldKeys ++ []) (a.loaded ++ []) = a
  simp

@[simp] theorem empty_append (a : Trace) : ∅ ++ a = a := rfl

end Trace

namespace Normalization

/-- What fields contribute to the record of an object, and the pieces of its children. -/
inductive FieldsOf (c : Context) (key : RecordKey) (object : Json.Object) :
    List (Field × Shape) → List (String × FieldValue) → Pieces → Prop
  | nil : FieldsOf c key object [] [] ∅
  | absent {field shape fs fields pieces} :
      Assoc.get? object field.responseName = none →
      FieldsOf c key object fs fields pieces →
      FieldsOf c key object ((field, shape) :: fs) fields pieces
  | present {field shape fs fields pieces value stored inner} :
      Assoc.get? object field.responseName = some value →
      shapeValue c field shape (key.child (field.cacheKey c.vars)) value = .ok (stored, inner) →
      FieldsOf c key object fs fields pieces →
      FieldsOf c key object ((field, shape) :: fs) ((field.cacheKey c.vars, stored) :: fields)
        (inner ++ ⟨[], [key.fieldKey (field.cacheKey c.vars)]⟩ ++ pieces)

theorem FieldsOf.append {c : Context} {key : RecordKey} {object : Json.Object}
    {fs gs : List (Field × Shape)} {fields others : List (String × FieldValue)}
    {pieces more : Pieces} (h : FieldsOf c key object fs fields pieces)
    (h' : FieldsOf c key object gs others more) :
    FieldsOf c key object (fs ++ gs) (fields ++ others) (pieces ++ more) := by
  induction h with
  | nil => exact h'
  | absent hnone _ ih => exact .absent hnone ih
  | present hsome hvalue _ ih =>
    rw [Pieces.append_assoc]
    exact .present hsome hvalue ih

mutual

theorem fieldsOf_of_selectionFields {c : Context} {key : RecordKey} {object : Json.Object} :
    ∀ {s : Selection} {fields : List (String × FieldValue)} {pieces : Pieces},
      selectionFields c key object s = .ok (fields, pieces) →
      FieldsOf c key object (s.applying (Json.typename? object)) fields pieces
  | .field field shape, fields, pieces, h => by
    rw [Selection.applying]
    rw [selectionFields] at h
    split at h
    · next hnone =>
      cases h
      exact .absent hnone .nil
    · next value hsome =>
      obtain ⟨⟨stored, inner⟩, hvalue, hrest⟩ := bind_eq_ok_iff.mp h
      cases hrest
      have hfields := FieldsOf.present hsome hvalue FieldsOf.nil
      rwa [Pieces.append_empty] at hfields
  | .fragment types selections, fields, pieces, h => by
    rw [Selection.applying]
    rw [selectionFields] at h
    split at h
    · next happlies =>
      rw [if_pos happlies]
      exact fieldsOf_of_selectionsFields h
    · next hnot =>
      rw [if_neg hnot]
      cases h
      exact .nil

/-- Taking an object apart goes through the fields that apply to the type that the object names. -/
theorem fieldsOf_of_selectionsFields {c : Context} {key : RecordKey} {object : Json.Object} :
    ∀ {ss : List Selection} {fields : List (String × FieldValue)} {pieces : Pieces},
      selectionsFields c key object ss = .ok (fields, pieces) →
      FieldsOf c key object (selectionsApplying (Json.typename? object) ss) fields pieces
  | [], fields, pieces, h => by
    rw [selectionsApplying]
    rw [selectionsFields] at h
    cases h
    exact .nil
  | s :: ss, fields, pieces, h => by
    rw [selectionsApplying_cons]
    rw [selectionsFields] at h
    obtain ⟨⟨first, inner⟩, hs, h⟩ := bind_eq_ok_iff.mp h
    obtain ⟨⟨others, more⟩, hss, h⟩ := bind_eq_ok_iff.mp h
    cases h
    exact (fieldsOf_of_selectionFields hs).append (fieldsOf_of_selectionsFields hss)

end

theorem FieldsOf.of_append {c : Context} {key : RecordKey} {object : Json.Object}
    {fs gs : List (Field × Shape)} {fields : List (String × FieldValue)} {pieces : Pieces}
    (h : FieldsOf c key object (fs ++ gs) fields pieces) :
    ∃ first others inner more, fields = first ++ others ∧ pieces = inner ++ more ∧
      FieldsOf c key object fs first inner ∧ FieldsOf c key object gs others more := by
  induction fs generalizing fields pieces with
  | nil => exact ⟨[], fields, ∅, pieces, rfl, rfl, .nil, h⟩
  | cons f fs ih =>
    cases h with
    | absent hnone hrest =>
      obtain ⟨first, others, inner, more, rfl, rfl, hfs, hgs⟩ := ih hrest
      exact ⟨first, others, inner, more, rfl, rfl, .absent hnone hfs, hgs⟩
    | present hsome hvalue hrest =>
      obtain ⟨first, others, inner, more, rfl, rfl, hfs, hgs⟩ := ih hrest
      exact ⟨_, others, _, more, List.cons_append.symm, (Pieces.append_assoc _ _ _).symm,
        .present hsome hvalue hfs, hgs⟩

mutual

theorem FieldsOf.selectionFields {c : Context} {key : RecordKey} {object : Json.Object} :
    ∀ {s : Selection} {fields : List (String × FieldValue)} {pieces : Pieces},
      FieldsOf c key object (s.applying (Json.typename? object)) fields pieces →
      selectionFields c key object s = .ok (fields, pieces)
  | .field field shape, fields, pieces, h => by
    rw [Selection.applying] at h
    rw [Normalization.selectionFields]
    cases h with
    | absent hnone hrest =>
      cases hrest
      rw [hnone]
    | present hsome hvalue hrest =>
      cases hrest
      rw [hsome, Pieces.append_empty]
      exact bind_eq_ok_iff.mpr ⟨_, hvalue, rfl⟩
  | .fragment types selections, fields, pieces, h => by
    rw [Selection.applying] at h
    rw [Normalization.selectionFields]
    split
    · next happlies =>
      rw [if_pos happlies] at h
      exact FieldsOf.selectionsFields h
    · next hnot =>
      rw [if_neg hnot] at h
      cases h
      rfl

/-- A walk along the fields that apply takes an object apart. -/
theorem FieldsOf.selectionsFields {c : Context} {key : RecordKey} {object : Json.Object} :
    ∀ {ss : List Selection} {fields : List (String × FieldValue)} {pieces : Pieces},
      FieldsOf c key object (selectionsApplying (Json.typename? object) ss) fields pieces →
      selectionsFields c key object ss = .ok (fields, pieces)
  | [], fields, pieces, h => by
    rw [selectionsApplying] at h
    rw [Normalization.selectionsFields]
    cases h
    rfl
  | s :: ss, fields, pieces, h => by
    rw [selectionsApplying_cons] at h
    obtain ⟨first, others, inner, more, rfl, rfl, hs, hss⟩ := h.of_append
    rw [Normalization.selectionsFields]
    exact bind_eq_ok_iff.mpr ⟨(first, inner), FieldsOf.selectionFields hs,
      bind_eq_ok_iff.mpr ⟨(others, more), FieldsOf.selectionsFields hss, rfl⟩⟩

end

theorem shapeValue_leaf (c : Context) (field : Field) (path : RecordKey) (value : Json) :
    shapeValue c field .leaf path value = .ok (.scalar value, ∅) := by
  cases value <;> rfl

/-- An object shape takes `null`, or an object under the key that it is stored under. -/
theorem shapeValue_object_eq_ok {c : Context} {field : Field} {selections : List Selection}
    {path : RecordKey} {value : Json} {stored : FieldValue} {pieces : Pieces}
    (h : shapeValue c field (.object selections) path value = .ok (stored, pieces)) :
    (value = .null ∧ stored = .scalar .null ∧ pieces = ∅) ∨
      ∃ members key fields children, value = .object members ∧
        key = (c.resolver.ofObject field members).getD path ∧
        FieldsOf c key members (selectionsApplying (Json.typename? members) selections) fields
          children ∧
        stored = .reference key ∧ pieces = objectPieces key fields children := by
  cases value with
  | null =>
    cases h
    exact .inl ⟨rfl, rfl, rfl⟩
  | object members =>
    obtain ⟨⟨fields, children⟩, hfields, heq⟩ := bind_eq_ok_iff.mp h
    cases heq
    exact .inr ⟨members, _, fields, children, rfl, rfl, fieldsOf_of_selectionsFields hfields, rfl,
      rfl⟩
  | _ => cases h

/-- A list shape takes `null`, or a list item by item. -/
theorem shapeValue_list_eq_ok {c : Context} {field : Field} {item : Shape} {path : RecordKey}
    {value : Json} {stored : FieldValue} {pieces : Pieces}
    (h : shapeValue c field (.list item) path value = .ok (stored, pieces)) :
    (value = .null ∧ stored = .scalar .null ∧ pieces = ∅) ∨
      ∃ items values, value = .array items ∧
        itemValues (shapeValue c field item) path 0 items = .ok (values, pieces) ∧
        stored = .list values := by
  cases value with
  | null =>
    cases h
    exact .inl ⟨rfl, rfl, rfl⟩
  | array items =>
    obtain ⟨⟨values, inner⟩, hitems, heq⟩ := bind_eq_ok_iff.mp h
    cases heq
    exact .inr ⟨items, values, rfl, hitems, rfl⟩
  | _ => cases h

theorem itemValues_cons_eq_ok {value : RecordKey → Json → Except ShapeMismatch (FieldValue × Pieces)}
    {path : RecordKey} {index : Nat} {x : Json} {xs : List Json} {values : List FieldValue}
    {pieces : Pieces} (h : itemValues value path index (x :: xs) = .ok (values, pieces)) :
    ∃ first others inner more, value (path.item index) x = .ok (first, inner) ∧
      itemValues value path (index + 1) xs = .ok (others, more) ∧
      values = first :: others ∧ pieces = inner ++ more := by
  obtain ⟨⟨first, inner⟩, hx, h⟩ := bind_eq_ok_iff.mp h
  obtain ⟨⟨others, more⟩, hxs, h⟩ := bind_eq_ok_iff.mp h
  cases h
  exact ⟨first, others, inner, more, hx, hxs, rfl, rfl⟩

/-- What is taken apart goes through the fields that apply to the type of the data. -/
theorem pieces_eq_ok {c : Context} {root : RecordKey} {selections : List Selection}
    {data : Json.Object} {taken : Pieces}
    (h : Normalization.pieces c root selections data = .ok taken) :
    ∃ fields children,
      FieldsOf c root data (selectionsApplying (Json.typename? data) selections) fields children ∧
        taken = objectPieces root fields children := by
  obtain ⟨⟨fields, children⟩, hfields, heq⟩ := bind_eq_ok_iff.mp h
  cases heq
  exact ⟨fields, children, fieldsOf_of_selectionsFields hfields, rfl⟩

end Normalization

theorem normalize_eq_ok {resolver : KeyResolver} {vars : Json.Object} {root : RecordKey}
    {selections : List Selection} {data : Json.Object} {normalized : Normalized}
    (h : normalize resolver vars root selections data = .ok normalized) :
    ∃ taken, Normalization.pieces ⟨resolver, vars⟩ root selections data = .ok taken ∧
      normalized.records = RecordTable.ofRecords taken.records ∧
      normalized.dependentKeys = KeySet.ofList taken.fieldKeys := by
  obtain ⟨taken, htaken, heq⟩ := bind_eq_ok_iff.mp h
  cases heq
  exact ⟨taken, htaken, rfl, rfl⟩

namespace Reading

/-- What fields read from a record, entry by entry. -/
inductive EntriesOf (c : Context) (r : Record) :
    List (Field × Shape) → List (String × Json) → Trace → Prop
  | nil : EntriesOf c r [] [] ∅
  | cons {field shape fs entries value first rest} :
      fieldValue c r field shape.isObject (shapeValue c r field shape) = .ok (value, first) →
      EntriesOf c r fs entries rest →
      EntriesOf c r ((field, shape) :: fs) ((field.responseName, value) :: entries) (first ++ rest)

theorem EntriesOf.append {c : Context} {r : Record} {fs gs : List (Field × Shape)}
    {entries others : List (String × Json)} {trace more : Trace}
    (h : EntriesOf c r fs entries trace) (h' : EntriesOf c r gs others more) :
    EntriesOf c r (fs ++ gs) (entries ++ others) (trace ++ more) := by
  induction h with
  | nil => exact h'
  | cons hvalue _ ih =>
    rw [Trace.append_assoc]
    exact .cons hvalue ih

theorem EntriesOf.of_append {c : Context} {r : Record} {fs gs : List (Field × Shape)}
    {entries : List (String × Json)} {trace : Trace} (h : EntriesOf c r (fs ++ gs) entries trace) :
    ∃ first others inner more, entries = first ++ others ∧ trace = inner ++ more ∧
      EntriesOf c r fs first inner ∧ EntriesOf c r gs others more := by
  induction fs generalizing entries trace with
  | nil => exact ⟨[], entries, ∅, trace, rfl, rfl, .nil, h⟩
  | cons f fs ih =>
    cases h with
    | cons hvalue hrest =>
      obtain ⟨first, others, inner, more, rfl, rfl, hfs, hgs⟩ := ih hrest
      exact ⟨_, others, _, more, List.cons_append.symm, (Trace.append_assoc _ _ _).symm,
        .cons hvalue hfs, hgs⟩

theorem EntriesOf.exists_fieldValue {c : Context} {r : Record} {fs : List (Field × Shape)}
    {entries : List (String × Json)} {trace : Trace} (h : EntriesOf c r fs entries trace)
    {f : Field × Shape} (hf : f ∈ fs) :
    ∃ value first, fieldValue c r f.1 f.2.isObject (shapeValue c r f.1 f.2) = .ok (value, first) := by
  induction h with
  | nil => cases hf
  | cons hvalue _ ih =>
    rcases List.mem_cons.mp hf with rfl | hf
    · exact ⟨_, _, hvalue⟩
    · exact ih hf

/-- The look-ups of a walk are those of its fields. -/
theorem EntriesOf.mem_fieldKeys_iff {c : Context} {r : Record} {fs : List (Field × Shape)}
    {entries : List (String × Json)} {trace : Trace} (h : EntriesOf c r fs entries trace)
    {k : String} :
    k ∈ trace.fieldKeys ↔ ∃ f ∈ fs, ∃ value first,
      fieldValue c r f.1 f.2.isObject (shapeValue c r f.1 f.2) = .ok (value, first) ∧
        k ∈ first.fieldKeys := by
  induction h with
  | nil => exact iff_of_false List.not_mem_nil nofun
  | @cons field shape fs entries value first rest hvalue _ ih =>
    rw [Trace.fieldKeys_append, List.mem_append, ih]
    constructor
    · rintro (hk | ⟨f, hf, hread⟩)
      · exact ⟨(field, shape), List.mem_cons_self, value, first, hvalue, hk⟩
      · exact ⟨f, List.mem_cons_of_mem _ hf, hread⟩
    · rintro ⟨f, hf, read, other, hread, hk⟩
      rcases List.mem_cons.mp hf with rfl | hf
      · cases hvalue.symm.trans hread
        exact .inl hk
      · exact .inr ⟨f, hf, read, other, hread, hk⟩

mutual

theorem selectionEntries_eq_ok_iff {c : Context} {r : Record} :
    ∀ {s : Selection} {entries : List (String × Json)} {trace : Trace},
      selectionEntries c r s = .ok (entries, trace) ↔
        EntriesOf c r (s.applying (recordTypename? r)) entries trace
  | .field field shape, entries, trace => by
    rw [Selection.applying, selectionEntries, bind_eq_ok_iff]
    constructor
    · rintro ⟨⟨value, first⟩, hvalue, h⟩
      cases h
      have hentries := EntriesOf.cons hvalue EntriesOf.nil
      rwa [Trace.append_empty] at hentries
    · intro h
      cases h with
      | cons hvalue hrest =>
        cases hrest
        exact ⟨_, hvalue, by rw [Trace.append_empty]; rfl⟩
  | .fragment types selections, entries, trace => by
    rw [Selection.applying, selectionEntries]
    split
    · exact selectionsEntries_eq_ok_iff
    · constructor
      · intro h
        cases h
        exact .nil
      · intro h
        cases h
        rfl

/-- Reading a record goes through the fields that apply to the type that the record names. -/
theorem selectionsEntries_eq_ok_iff {c : Context} {r : Record} :
    ∀ {ss : List Selection} {entries : List (String × Json)} {trace : Trace},
      selectionsEntries c r ss = .ok (entries, trace) ↔
        EntriesOf c r (selectionsApplying (recordTypename? r) ss) entries trace
  | [], entries, trace => by
    rw [selectionsApplying, selectionsEntries]
    constructor
    · intro h
      cases h
      exact .nil
    · intro h
      cases h
      rfl
  | s :: ss, entries, trace => by
    rw [selectionsApplying_cons, selectionsEntries, bind_eq_ok_iff]
    constructor
    · rintro ⟨⟨first, inner⟩, hs, h⟩
      obtain ⟨⟨others, more⟩, hss, h⟩ := bind_eq_ok_iff.mp h
      cases h
      exact (selectionEntries_eq_ok_iff.mp hs).append (selectionsEntries_eq_ok_iff.mp hss)
    · intro h
      obtain ⟨first, others, inner, more, rfl, rfl, hs, hss⟩ := h.of_append
      exact ⟨(first, inner), selectionEntries_eq_ok_iff.mpr hs,
        bind_eq_ok_iff.mpr ⟨(others, more), selectionsEntries_eq_ok_iff.mpr hss, rfl⟩⟩

end

theorem objectOf_eq_ok_iff {source : RecordSource} {key : RecordKey}
    {body : Record → Except ReadError (List (String × Json) × Trace)} {members : Json.Object}
    {trace : Trace} :
    objectOf source key body = .ok (members, trace) ↔
      ∃ r entries rest, source key = some r ∧ body r = .ok (entries, rest) ∧
        members = Json.mergeMembers [] entries ∧ trace = ⟨[], [(key, r)]⟩ ++ rest := by
  rw [objectOf]
  cases source key with
  | none => simp
  | some r =>
    simp only [bind_eq_ok_iff, Option.some.injEq]
    constructor
    · rintro ⟨⟨entries, rest⟩, hbody, h⟩
      cases h
      exact ⟨r, entries, rest, rfl, hbody, rfl, rfl⟩
    · rintro ⟨_, entries, rest, rfl, hbody, rfl, rfl⟩
      exact ⟨(entries, rest), hbody, rfl⟩

/-- Unless the resolver redirects, a field is looked up in the record. -/
theorem fieldValue_eq_storedField {c : Context} (hc : c.resolver.NeverRedirects) (r : Record)
    (field : Field) (isObject : Bool) (value : FieldValue → Except ReadError (Json × Trace)) :
    fieldValue c r field isObject value = storedField c r field value := by
  have hredirect : redirect? c field = none := by rw [redirect?, hc field c.vars]; rfl
  rw [fieldValue, hredirect, ite_self]

theorem storedField_of_some {c : Context} {r : Record} {field : Field} {stored : FieldValue}
    (h : r.field? (field.cacheKey c.vars) = some stored)
    {value : FieldValue → Except ReadError (Json × Trace)} {read : Json} {trace : Trace} :
    storedField c r field value = .ok (read, trace) ↔
      ∃ rest, value stored = .ok (read, rest) ∧
        trace = ⟨[r.key.fieldKey (field.cacheKey c.vars)], []⟩ ++ rest := by
  rw [storedField, h]
  simp only [bind_eq_ok_iff]
  constructor
  · rintro ⟨⟨_, rest⟩, hvalue, heq⟩
    cases heq
    exact ⟨rest, hvalue, rfl⟩
  · rintro ⟨rest, hvalue, rfl⟩
    exact ⟨(read, rest), hvalue, rfl⟩

theorem storedField_of_none {c : Context} {r : Record} {field : Field}
    (h : r.field? (field.cacheKey c.vars) = none)
    {value : FieldValue → Except ReadError (Json × Trace)} {read : Json} {trace : Trace} :
    storedField c r field value = .ok (read, trace) ↔
      field.nullable = true ∧ read = .null ∧
        trace = ⟨[r.key.fieldKey (field.cacheKey c.vars)], []⟩ := by
  rw [storedField, h]
  cases field.nullable with
  | false => simp
  | true => simp [eq_comm]

/-- A leaf is read from a scalar, as it is. -/
theorem shapeValue_leaf_eq_ok_iff {c : Context} {r : Record} {field : Field} {stored : FieldValue}
    {value : Json} {trace : Trace} :
    shapeValue c r field .leaf stored = .ok (value, trace) ↔ stored = .scalar value ∧ trace = ∅ := by
  cases stored with
  | scalar json =>
    have hread : shapeValue c r field .leaf (.scalar json) = .ok (json, ∅) := by cases json <;> rfl
    rw [hread, Except.ok.injEq, Prod.mk.injEq, FieldValue.scalar.injEq, eq_comm (a := ∅)]
  | reference key => exact iff_of_false (fun h => by cases h) fun h => by cases h.1
  | list items => exact iff_of_false (fun h => by cases h) fun h => by cases h.1

/-- An object is read from `null`, or from the record that is referred to. -/
theorem shapeValue_object_eq_ok_iff {c : Context} {r : Record} {field : Field}
    {selections : List Selection} {stored : FieldValue} {value : Json} {trace : Trace} :
    shapeValue c r field (.object selections) stored = .ok (value, trace) ↔
      (stored = .scalar .null ∧ value = .null ∧ trace = ∅) ∨
        ∃ key members, stored = .reference key ∧ value = .object members ∧
          objectOf c.source key (fun r => selectionsEntries c r selections) =
            .ok (members, trace) := by
  constructor
  · intro h
    cases stored with
    | scalar json =>
      cases json with
      | null =>
        cases h
        exact .inl ⟨rfl, rfl, rfl⟩
      | _ => cases h
    | list items => cases h
    | reference key =>
      obtain ⟨⟨members, inner⟩, hmembers, heq⟩ := bind_eq_ok_iff.mp h
      cases heq
      exact .inr ⟨key, members, rfl, rfl, hmembers⟩
  · rintro (⟨rfl, rfl, rfl⟩ | ⟨key, members, rfl, rfl, hmembers⟩)
    · rfl
    · exact bind_eq_ok_iff.mpr ⟨_, hmembers, rfl⟩

/-- A list is read from `null`, or item by item. -/
theorem shapeValue_list_eq_ok_iff {c : Context} {r : Record} {field : Field} {item : Shape}
    {stored : FieldValue} {value : Json} {trace : Trace} :
    shapeValue c r field (.list item) stored = .ok (value, trace) ↔
      (stored = .scalar .null ∧ value = .null ∧ trace = ∅) ∨
        ∃ items values, stored = .list items ∧ value = .array values ∧
          itemsOf (shapeValue c r field item) items = .ok (values, trace) := by
  constructor
  · intro h
    cases stored with
    | scalar json =>
      cases json with
      | null =>
        cases h
        exact .inl ⟨rfl, rfl, rfl⟩
      | _ => cases h
    | reference key => cases h
    | list items =>
      obtain ⟨⟨values, inner⟩, hitems, heq⟩ := bind_eq_ok_iff.mp h
      cases heq
      exact .inr ⟨items, values, rfl, rfl, hitems⟩
  · rintro (⟨rfl, rfl, rfl⟩ | ⟨items, values, rfl, rfl, hitems⟩)
    · rfl
    · exact bind_eq_ok_iff.mpr ⟨_, hitems, rfl⟩

theorem itemsOf_cons_eq_ok_iff {item : FieldValue → Except ReadError (Json × Trace)}
    {x : FieldValue} {xs : List FieldValue} {values : List Json} {trace : Trace} :
    itemsOf item (x :: xs) = .ok (values, trace) ↔
      ∃ first others inner more, item x = .ok (first, inner) ∧ itemsOf item xs = .ok (others, more) ∧
        values = first :: others ∧ trace = inner ++ more := by
  constructor
  · intro h
    obtain ⟨⟨first, inner⟩, hx, h⟩ := bind_eq_ok_iff.mp h
    obtain ⟨⟨others, more⟩, hxs, h⟩ := bind_eq_ok_iff.mp h
    cases h
    exact ⟨first, others, inner, more, hx, hxs, rfl, rfl⟩
  · rintro ⟨first, others, inner, more, hx, hxs, rfl, rfl⟩
    exact bind_eq_ok_iff.mpr ⟨_, hx, bind_eq_ok_iff.mpr ⟨_, hxs, rfl⟩⟩

end Reading

theorem readData_eq_ok_iff {source : RecordSource} {resolver : KeyResolver} {vars : Json.Object}
    {root : RecordKey} {selections : List Selection} {result : ReadResult} :
    readData source resolver vars root selections = .ok result ↔
      ∃ trace : Trace, Reading.objectOf source root
          (fun r => Reading.selectionsEntries ⟨source, resolver, vars⟩ r selections) =
            .ok (result.data, trace) ∧
        result.dependentKeys = KeySet.ofList trace.fieldKeys ∧
        result.records = Assoc.ofEntries trace.loaded := by
  rw [readData]
  simp only [bind_eq_ok_iff]
  constructor
  · rintro ⟨⟨data, trace⟩, hobject, heq⟩
    cases heq
    exact ⟨trace, hobject, rfl, rfl⟩
  · rintro ⟨trace, hobject, hkeys, hrecords⟩
    refine ⟨_, hobject, ?_⟩
    obtain ⟨data, dependentKeys, records⟩ := result
    cases hkeys
    cases hrecords
    rfl

end GraphClient
