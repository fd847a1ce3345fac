import GraphClient.Proofs.Record.Reordering
import GraphClient.Proofs.Selection.CacheKeys
import GraphClient.Proofs.Selection.Walk

/-!
# Normalizing data that differ in the order of keys

Two runs over data, and under variables, that differ in the order of keys go in lockstep: the walk
follows the selections and finds a value by its name, so both meet reorderings of one value at one
path, and they store it under one key. `SameOutcome` relates the two results: either both runs fail
with one error, or both succeed with related results. In the end the records differ in the order of
keys inside their values at most (`normalize_reordered`).
-/

namespace GraphClient

/-- The runs fail with one error, or both succeed and their results are related. -/
inductive SameOutcome {ε α : Type} (R : α → α → Prop) : Except ε α → Except ε α → Prop
  | error (e : ε) : SameOutcome R (.error e) (.error e)
  | ok {a a' : α} (h : R a a') : SameOutcome R (.ok a) (.ok a')

theorem SameOutcome.imp {ε α : Type} {R S : α → α → Prop} {x x' : Except ε α}
    (h : SameOutcome R x x') (hS : ∀ a a', R a a' → S a a') : SameOutcome S x x' := by
  cases h with
  | error e => exact .error e
  | ok h => exact .ok (hS _ _ h)

theorem SameOutcome.bind {ε α β : Type} {R : α → α → Prop} {S : β → β → Prop} {x x' : Except ε α}
    {f f' : α → Except ε β} (hx : SameOutcome R x x')
    (hf : ∀ a a', R a a' → SameOutcome S (f a) (f' a')) :
    SameOutcome S (x >>= f) (x' >>= f') := by
  cases hx with
  | error e => exact .error e
  | ok h => exact hf _ _ h

/-- The resolver gives an object one key, whatever the order of its members is. -/
def KeyResolver.IgnoresOrder (resolver : KeyResolver) : Prop :=
  ∀ field xs ys, (Json.object xs).Reordered (.object ys) →
    resolver.ofObject field xs = resolver.ofObject field ys

namespace KeyResolver

theorem typeAndId?_eq_of_reordered {xs ys : Json.Object}
    (h : (Json.object xs).Reordered (.object ys)) : typeAndId? xs = typeAndId? ys := by
  have hid := bind_eq_of_rel (h.get? "id") fun _ _ hvalue => hvalue.keyFragment?_eq
  simp only [typeAndId?, h.typename?_eq, Option.bind_eq_bind, ← Option.bind_assoc, hid]

theorem ignoresOrder_byTypeAndId : byTypeAndId.IgnoresOrder := fun _ _ _ =>
  typeAndId?_eq_of_reordered

theorem ignoresOrder_byPath : byPath.IgnoresOrder := fun _ _ _ _ => rfl

end KeyResolver

/-- The records to be merged differ in the order of keys at most, and the field keys are the same. -/
structure Pieces.Reordered (p p' : Pieces) : Prop where
  records : List.Forall₂ Record.Reordered p.records p'.records
  fieldKeys : p.fieldKeys = p'.fieldKeys

namespace Pieces

theorem reordered_fieldKeys (keys : List String) : Reordered ⟨[], keys⟩ ⟨[], keys⟩ := ⟨.nil, rfl⟩

theorem Reordered.append {p p' q q' : Pieces} (hp : p.Reordered p') (hq : q.Reordered q') :
    (p ++ q).Reordered (p' ++ q') where
  records := List.rel_append hp.records hq.records
  fieldKeys := congrArg₂ _ hp.fieldKeys hq.fieldKeys

end Pieces

/-- The same records in the same order, with values that differ in the order of keys at most, and the
same field keys. -/
structure Normalized.Reordered (n n' : Normalized) : Prop where
  records : n.records.Reordered n'.records
  dependentKeys : n.dependentKeys = n'.dependentKeys

namespace Normalization

/-- What two runs find in an object: the same fields with reordered values. -/
structure FoundAlike (found found' : List (String × FieldValue) × Pieces) : Prop where
  fields : Assoc.Matched FieldValue.Reordered found.1 found'.1
  pieces : found.2.Reordered found'.2

/-- What two runs store for a value. -/
structure StoredAlike (stored stored' : FieldValue × Pieces) : Prop where
  value : stored.1.Reordered stored'.1
  pieces : stored.2.Reordered stored'.2

theorem FoundAlike.nil : FoundAlike ([], ∅) ([], ∅) := ⟨.nil, Pieces.reordered_fieldKeys []⟩

theorem FoundAlike.append {a a' b b' : List (String × FieldValue) × Pieces} (ha : FoundAlike a a')
    (hb : FoundAlike b b') : FoundAlike (a.1 ++ b.1, a.2 ++ b.2) (a'.1 ++ b'.1, a'.2 ++ b'.2) :=
  ⟨ha.fields.append hb.fields, ha.pieces.append hb.pieces⟩

theorem recordOf_reordered (key : RecordKey) {fields fields' : List (String × FieldValue)}
    (h : Assoc.Matched FieldValue.Reordered fields fields') :
    (recordOf key fields).Reordered (recordOf key fields') := by
  have hfold : ∀ {r r' : Record}, r.Reordered r' →
      (fields.foldl (fun r f => r.setField f.1 f.2) r).Reordered
        (fields'.foldl (fun r f => r.setField f.1 f.2) r') := by
    induction h with
    | nil => exact id
    | @cons f f' _ _ hf _ ih =>
      intro r r' hr
      obtain ⟨name, value⟩ := f
      obtain ⟨name', value'⟩ := f'
      obtain ⟨rfl, hvalue⟩ := hf
      exact ih (hr.setField name hvalue)
  exact hfold ⟨rfl, .nil⟩

theorem FoundAlike.objectPieces {found found' : List (String × FieldValue) × Pieces}
    (h : FoundAlike found found') (key : RecordKey) :
    (objectPieces key found.1 found.2).Reordered (Normalization.objectPieces key found'.1 found'.2)
    where
  records := .cons ⟨rfl, .nil⟩ <|
    List.rel_append h.pieces.records (.cons (recordOf_reordered key h.fields) .nil)
  fieldKeys := h.pieces.fieldKeys

/-- Two runs over lists item by item. -/
theorem itemValues_reordered
    {value value' : RecordKey → Json → Except ShapeMismatch (FieldValue × Pieces)}
    (hvalue : ∀ path x y, x.Reordered y → SameOutcome StoredAlike (value path x) (value' path y))
    (path : RecordKey) (index : Nat) {xs ys : List Json} (h : List.Forall₂ Json.Reordered xs ys) :
    SameOutcome (fun a a' => List.Forall₂ FieldValue.Reordered a.1 a'.1 ∧ a.2.Reordered a'.2)
      (itemValues value path index xs) (itemValues value' path index ys) := by
  induction h generalizing index with
  | nil => exact .ok ⟨.nil, Pieces.reordered_fieldKeys []⟩
  | cons hxy _ ih =>
    refine (hvalue _ _ _ hxy).bind fun first first' hfirst => ?_
    refine (ih (index + 1)).bind fun others others' hothers => ?_
    exact .ok ⟨.cons hfirst.value hothers.1, hfirst.pieces.append hothers.2⟩

/-- Two runs of one resolver under variables that differ in the order of keys. -/
structure Context.Reordered (c c' : Context) : Prop where
  resolver : c.resolver = c'.resolver
  ignoresOrder : c'.resolver.IgnoresOrder
  vars : (Json.object c.vars).Reordered (.object c'.vars)

variable {c c' : Context}

/-- Neither variables nor the resolver play a part where a scalar is met. -/
theorem scalar_alike (field : Field) (shape : Shape) (path : RecordKey) {x : Json}
    (h : x.isScalar = true) :
    SameOutcome StoredAlike (shapeValue c field shape path x) (shapeValue c' field shape path x) := by
  have hstored : StoredAlike (.scalar x, ∅) (.scalar x, ∅) :=
    ⟨.scalar (.scalar h), Pieces.reordered_fieldKeys []⟩
  cases shape with
  | leaf =>
    rw [shapeValue_leaf, shapeValue_leaf]
    exact .ok hstored
  | _ =>
    cases x with
    | null => exact .ok hstored
    | array => cases h
    | object => cases h
    | _ => exact .error _

mutual

theorem selectionsFields_reordered (hc : c.Reordered c') (key : RecordKey) {xs ys : Json.Object}
    (h : (Json.object xs).Reordered (.object ys)) : ∀ ss : List Selection,
      SameOutcome FoundAlike (selectionsFields c key xs ss) (selectionsFields c' key ys ss)
  | [] => .ok .nil
  | s :: ss => by
    rw [selectionsFields, selectionsFields]
    refine (selectionFields_reordered hc key h s).bind fun found found' hfound => ?_
    refine (selectionsFields_reordered hc key h ss).bind fun others others' hothers => ?_
    exact .ok (hfound.append hothers)

theorem selectionFields_reordered (hc : c.Reordered c') (key : RecordKey) {xs ys : Json.Object}
    (h : (Json.object xs).Reordered (.object ys)) : ∀ s : Selection,
      SameOutcome FoundAlike (selectionFields c key xs s) (selectionFields c' key ys s)
  | .field field shape => by
    rw [selectionFields, selectionFields]
    rcases none_or_some_of_rel (h.get? field.responseName) with ⟨hx, hy⟩ | ⟨x, y, hx, hy, hvalue⟩
    · rw [hx, hy]
      exact .ok .nil
    · simp only [hx, hy, ← Field.cacheKey_eq_of_reordered hc.vars field]
      refine (shapeValue_reordered hc field shape _ hvalue).bind fun stored stored' hstored => ?_
      exact .ok ⟨.cons _ hstored.value .nil, hstored.pieces.append (Pieces.reordered_fieldKeys _)⟩
  | .fragment types selections => by
    rw [selectionFields, selectionFields, h.typename?_eq]
    split
    · exact selectionsFields_reordered hc key h selections
    · exact .ok .nil

theorem shapeValue_reordered (hc : c.Reordered c') (field : Field) : ∀ (shape : Shape)
    (path : RecordKey) {x y : Json}, x.Reordered y →
      SameOutcome StoredAlike (shapeValue c field shape path x) (shapeValue c' field shape path y)
  | .leaf, path, x, y, h => by
    rw [shapeValue_leaf, shapeValue_leaf]
    exact .ok ⟨.scalar h, Pieces.reordered_fieldKeys []⟩
  | .object selections, path, x, y, h => by
    cases h with
    | scalar h => exact scalar_alike field _ path h
    | array => exact .error _
    | @object xs ys nodup perm members =>
      have h := Json.Reordered.object nodup perm members
      rw [shapeValue, shapeValue, hc.resolver, hc.ignoresOrder field xs ys h]
      refine (selectionsFields_reordered hc _ h selections).bind fun found found' hfound => ?_
      exact .ok ⟨.reference _, hfound.objectPieces _⟩
  | .list item, path, x, y, h => by
    cases h with
    | scalar h => exact scalar_alike field _ path h
    | object => exact .error _
    | array length items =>
      have h := forall₂_iff_getElem?.mpr ⟨length, items⟩
      rw [shapeValue, shapeValue]
      refine (itemValues_reordered (fun path _ _ => shapeValue_reordered hc field item path) path 0
        h).bind fun values values' hvalues => ?_
      exact .ok ⟨FieldValue.Reordered.list_iff.mpr hvalues.1, hvalues.2⟩

end

end Normalization

/-- Data and variables that differ in the order of keys are normalized alike. -/
theorem normalize_reordered {resolver : KeyResolver} (hresolver : resolver.IgnoresOrder)
    {vars vars' : Json.Object} (hvars : (Json.object vars).Reordered (.object vars'))
    {data data' : Json.Object} (hdata : (Json.object data).Reordered (.object data'))
    (root : RecordKey) (selections : List Selection) :
    SameOutcome Normalized.Reordered (normalize resolver vars root selections data)
      (normalize resolver vars' root selections data') := by
  have hc : Normalization.Context.Reordered ⟨resolver, vars⟩ ⟨resolver, vars'⟩ :=
    ⟨rfl, hresolver, hvars⟩
  have hpieces : SameOutcome Pieces.Reordered
      (Normalization.pieces ⟨resolver, vars⟩ root selections data)
      (Normalization.pieces ⟨resolver, vars'⟩ root selections data') :=
    (Normalization.selectionsFields_reordered hc root hdata selections).bind fun _ _ hfound =>
      .ok (hfound.objectPieces root)
  refine hpieces.bind fun pieces pieces' h => .ok ⟨.ofRecords h.records, ?_⟩
  exact congrArg KeySet.ofList h.fieldKeys

end GraphClient
