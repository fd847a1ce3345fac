import GraphClient.Proofs.Normalization.Reordering
import GraphClient.Proofs.Reading.Merging

/-!
# Reading records that differ in the order of keys

Two reads from sources whose records differ in the order of keys go in lockstep, also when the
variables differ so: they look up the same fields of the same records, and fail with one error or give
data that differ in the order of keys at most (`readData_reordered`). What was read for one name is
merged on the way; merging reorderings gives reorderings (`Json.Reordered.merge`).
-/

namespace GraphClient

namespace Json.Reordered

/-- Merging reorderings gives reorderings. -/
theorem merge {x x' y y' : Json} (hx : Reordered x x') (hy : Reordered y y') :
    Reordered (Json.merge x y) (Json.merge x' y') := by
  induction hy generalizing x x' with
  | @scalar y h =>
    have hobject : y.isObject = false := by cases y <;> first | rfl | cases h
    rw [merge_of_not_object hobject, merge_of_not_object hobject]
    exact .scalar h
  | array length items =>
    rw [merge_of_not_object rfl, merge_of_not_object rfl]
    exact .array length items
  | @object ys ys' nodup perm members ih =>
    have hys := Reordered.object nodup perm members
    cases hx with
    | scalar h =>
      cases x with
      | object => cases h
      | _ => exact hys
    | array => exact hys
    | @object xs xs' nodup' perm' members' =>
      have hxs := Reordered.object nodup' perm' members'
      refine of_get? (wellFormed_mergeMembers hxs.wellFormed hys.wellFormed.2).1
        (wellFormed_mergeMembers hxs.symm.wellFormed hys.symm.wellFormed.2).1 fun name => ?_
      rw [get?_mergeMembers hys.nodup_keys, get?_mergeMembers hys.symm.nodup_keys]
      rcases none_or_some_of_rel (hxs.get? name) with ⟨hx, hx'⟩ | ⟨x, x', hx, hx', hxx'⟩ <;>
        rcases none_or_some_of_rel (hys.get? name) with ⟨hy, hy'⟩ | ⟨y, y', hy, hy', hyy'⟩ <;>
        rw [hx, hx', hy, hy']
      · exact .none
      · exact .some hyy'
      · exact .some hxx'
      · exact .some (ih name y y' hy hy' hxx')

theorem mergeMember {members members' : Object} (h : Reordered (.object members) (.object members'))
    (name : String) {x x' : Json} (hx : Reordered x x') :
    Reordered (.object (Json.mergeMember members name x))
      (.object (Json.mergeMember members' name x')) := by
  rw [mergeMember_eq_insert, mergeMember_eq_insert]
  refine h.insert name ?_
  rcases none_or_some_of_rel (h.get? name) with ⟨hold, hold'⟩ | ⟨old, old', hold, hold', hvalue⟩
  · rw [hold, hold']
    exact hx
  · rw [hold, hold']
    exact hvalue.merge hx

/-- Entries under the same names in the same order are merged into reorderings of one object. -/
theorem mergeMembers {members members' : Object}
    (h : Reordered (.object members) (.object members')) {entries entries' : List (String × Json)}
    (hentries : Assoc.Matched Reordered entries entries') :
    Reordered (.object (Json.mergeMembers members entries))
      (.object (Json.mergeMembers members' entries')) := by
  induction hentries generalizing members members' with
  | nil => exact h
  | @cons entry entry' _ _ hentry _ ih =>
    obtain ⟨name, value⟩ := entry
    obtain ⟨name', value'⟩ := entry'
    obtain ⟨rfl, hvalue⟩ := hentry
    exact ih (h.mergeMember name hvalue)

end Json.Reordered

/-- The same field keys were looked up, and the records that were loaded differ in the order of keys
at most. -/
structure Trace.Reordered (t t' : Trace) : Prop where
  fieldKeys : t.fieldKeys = t'.fieldKeys
  loaded : Assoc.Matched Record.Reordered t.loaded t'.loaded

namespace Trace

theorem reordered_fieldKeys (keys : List String) : Reordered ⟨keys, []⟩ ⟨keys, []⟩ := ⟨rfl, .nil⟩

theorem Reordered.append {t t' u u' : Trace} (ht : t.Reordered t') (hu : u.Reordered u') :
    (t ++ u).Reordered (t' ++ u') where
  fieldKeys := congrArg₂ _ ht.fieldKeys hu.fieldKeys
  loaded := ht.loaded.append hu.loaded

end Trace

/-- The data differ in the order of keys at most, the same field keys were looked up, and the same
records were loaded but for the order of keys in their values. -/
structure ReadResult.Reordered (result result' : ReadResult) : Prop where
  data : (Json.object result.data).Reordered (.object result'.data)
  dependentKeys : result.dependentKeys = result'.dependentKeys
  records : result.records.Reordered result'.records

namespace Reading

/-- What two runs read for a value. -/
structure ReadAlike (read read' : Json × Trace) : Prop where
  value : read.1.Reordered read'.1
  trace : read.2.Reordered read'.2

/-- What two runs read for selections: entries of the same names. -/
structure EntriesAlike (read read' : List (String × Json) × Trace) : Prop where
  entries : Assoc.Matched Json.Reordered read.1 read'.1
  trace : read.2.Reordered read'.2

theorem EntriesAlike.nil : EntriesAlike ([], ∅) ([], ∅) := ⟨.nil, Trace.reordered_fieldKeys []⟩

theorem EntriesAlike.append {a a' b b' : List (String × Json) × Trace} (ha : EntriesAlike a a')
    (hb : EntriesAlike b b') : EntriesAlike (a.1 ++ b.1, a.2 ++ b.2) (a'.1 ++ b'.1, a'.2 ++ b'.2) :=
  ⟨ha.entries.append hb.entries, ha.trace.append hb.trace⟩

theorem ReadAlike.null (keys : List String) : ReadAlike (.null, ⟨keys, []⟩) (.null, ⟨keys, []⟩) :=
  ⟨.scalar rfl, Trace.reordered_fieldKeys keys⟩

/-- Two reads of one resolver that does not redirect, from records and under variables that differ in
the order of keys. -/
structure Context.Reordered (c c' : Context) : Prop where
  source : ∀ key, Option.Rel Record.Reordered (c.source key) (c'.source key)
  neverRedirects : c.resolver.NeverRedirects
  neverRedirects' : c'.resolver.NeverRedirects
  vars : (Json.object c.vars).Reordered (.object c'.vars)

theorem recordTypename?_eq_of_reordered {r r' : Record} (h : r.Reordered r') :
    recordTypename? r = recordTypename? r' := by
  rw [recordTypename?, recordTypename?]
  rcases none_or_some_of_rel (h.field? Json.typenameKey) with ⟨hx, hy⟩ | ⟨x, y, hx, hy, hvalue⟩
  · rw [hx, hy]
  · rw [hx, hy]
    cases hvalue with
    | scalar h => cases h <;> rfl
    | reference key => rfl
    | list => rfl

variable {c c' : Context}

theorem objectOf_reordered (hc : c.Reordered c') (key : RecordKey)
    {body body' : Record → Except ReadError (List (String × Json) × Trace)}
    (hbody : ∀ r r', r.Reordered r' → SameOutcome EntriesAlike (body r) (body' r')) :
    SameOutcome (fun a a' => (Json.object a.1).Reordered (.object a'.1) ∧ a.2.Reordered a'.2)
      (objectOf c.source key body) (objectOf c'.source key body') := by
  have hempty : (Json.object []).Reordered (.object []) := .refl ⟨List.nodup_nil, trivial⟩
  rw [objectOf, objectOf]
  rcases none_or_some_of_rel (hc.source key) with ⟨hx, hy⟩ | ⟨r, r', hx, hy, hr⟩
  · rw [hx, hy]
    exact .error _
  · rw [hx, hy]
    refine (hbody _ _ hr).bind fun read read' hread => .ok ⟨?_, ?_⟩
    · exact hempty.mergeMembers hread.entries
    · exact Trace.Reordered.append ⟨rfl, .cons key hr .nil⟩ hread.trace

theorem itemsOf_reordered {item item' : FieldValue → Except ReadError (Json × Trace)}
    (hitem : ∀ x y, x.Reordered y → SameOutcome ReadAlike (item x) (item' y))
    {xs ys : List FieldValue} (h : List.Forall₂ FieldValue.Reordered xs ys) :
    SameOutcome (fun a a' => List.Forall₂ Json.Reordered a.1 a'.1 ∧ a.2.Reordered a'.2)
      (itemsOf item xs) (itemsOf item' ys) := by
  induction h with
  | nil => exact .ok ⟨.nil, Trace.reordered_fieldKeys []⟩
  | cons hxy _ ih =>
    refine (hitem _ _ hxy).bind fun first first' hfirst => ?_
    refine ih.bind fun others others' hothers => ?_
    exact .ok ⟨.cons hfirst.value hothers.1, hfirst.trace.append hothers.2⟩

theorem fieldValue_reordered (hc : c.Reordered c') {r r' : Record} (hr : r.Reordered r')
    (field : Field) (isObject : Bool) {value value' : FieldValue → Except ReadError (Json × Trace)}
    (hvalue : ∀ x y, x.Reordered y → SameOutcome ReadAlike (value x) (value' y)) :
    SameOutcome ReadAlike (fieldValue c r field isObject value)
      (fieldValue c' r' field isObject value') := by
  rw [fieldValue_eq_storedField hc.neverRedirects, fieldValue_eq_storedField hc.neverRedirects',
    storedField, storedField, ← Field.cacheKey_eq_of_reordered hc.vars, hr.key]
  rcases none_or_some_of_rel (hr.field? (field.cacheKey c.vars)) with
    ⟨hx, hy⟩ | ⟨stored, stored', hx, hy, hstored⟩
  · rw [hx, hy]
    cases field.nullable with
    | true => exact .ok (.null _)
    | false => exact .error _
  · rw [hx, hy]
    refine (hvalue _ _ hstored).bind fun read read' hread => ?_
    exact .ok ⟨hread.value, (Trace.reordered_fieldKeys _).append hread.trace⟩

theorem unexpectedValue_reordered {r r' : Record} (hr : r.Reordered r') (field : Field) :
    SameOutcome ReadAlike (.error (ReadError.unexpectedValue r.key field.name))
      (.error (ReadError.unexpectedValue r'.key field.name)) := by
  rw [hr.key]
  exact .error _

/-- Of the scalars only `null` has the shape of an object or of a list. -/
theorem shapeValue_scalar_of_ne_null {r : Record} {field : Field} {shape : Shape}
    (hshape : shape ≠ .leaf) {x : Json} (hx : x ≠ .null) :
    shapeValue c r field shape (.scalar x) = .error (.unexpectedValue r.key field.name) := by
  cases shape with
  | leaf => exact absurd rfl hshape
  | _ =>
    cases x with
    | null => exact absurd rfl hx
    | _ => rfl

theorem scalar_reordered {r r' : Record} (hr : r.Reordered r') (field : Field) (shape : Shape)
    (hshape : shape ≠ .leaf) {x y : Json} (h : x.Reordered y) :
    SameOutcome ReadAlike (shapeValue c r field shape (.scalar x))
      (shapeValue c' r' field shape (.scalar y)) := by
  by_cases hx : x = .null
  · subst hx
    cases h
    cases shape <;> exact .ok (.null [])
  · have hy : y ≠ .null := by
      rintro rfl
      cases h
      exact hx rfl
    rw [shapeValue_scalar_of_ne_null hshape hx, shapeValue_scalar_of_ne_null hshape hy]
    exact unexpectedValue_reordered hr field

mutual

theorem selectionsEntries_reordered (hc : c.Reordered c') {r r' : Record} (hr : r.Reordered r') :
    ∀ ss : List Selection,
      SameOutcome EntriesAlike (selectionsEntries c r ss) (selectionsEntries c' r' ss)
  | [] => .ok .nil
  | s :: ss => by
    rw [selectionsEntries, selectionsEntries]
    refine (selectionEntries_reordered hc hr s).bind fun read read' hread => ?_
    refine (selectionsEntries_reordered hc hr ss).bind fun others others' hothers => ?_
    exact .ok (hread.append hothers)

theorem selectionEntries_reordered (hc : c.Reordered c') {r r' : Record} (hr : r.Reordered r') :
    ∀ s : Selection, SameOutcome EntriesAlike (selectionEntries c r s) (selectionEntries c' r' s)
  | .field field shape => by
    rw [selectionEntries, selectionEntries]
    refine (fieldValue_reordered hc hr field _ fun _ _ => shapeValue_reordered hc hr field shape).bind
      fun read read' hread => ?_
    exact .ok ⟨.cons _ hread.value .nil, hread.trace⟩
  | .fragment types selections => by
    rw [selectionEntries, selectionEntries, recordTypename?_eq_of_reordered hr]
    split
    · exact selectionsEntries_reordered hc hr selections
    · exact .ok .nil

theorem shapeValue_reordered (hc : c.Reordered c') {r r' : Record} (hr : r.Reordered r')
    (field : Field) : ∀ (shape : Shape) {x y : FieldValue}, x.Reordered y →
      SameOutcome ReadAlike (shapeValue c r field shape x) (shapeValue c' r' field shape y)
  | .leaf, x, y, h => by
    cases h with
    | @scalar x y h =>
      have hx : shapeValue c r field .leaf (.scalar x) = .ok (x, ∅) :=
        shapeValue_leaf_eq_ok_iff.mpr ⟨rfl, rfl⟩
      have hy : shapeValue c' r' field .leaf (.scalar y) = .ok (y, ∅) :=
        shapeValue_leaf_eq_ok_iff.mpr ⟨rfl, rfl⟩
      rw [hx, hy]
      exact .ok ⟨h, Trace.reordered_fieldKeys []⟩
    | _ => exact unexpectedValue_reordered hr field
  | .object selections, x, y, h => by
    cases h with
    | scalar h => exact scalar_reordered hr field (.object selections) nofun h
    | reference key =>
      rw [shapeValue, shapeValue]
      refine (objectOf_reordered hc key fun _ _ hr =>
        selectionsEntries_reordered hc hr selections).bind fun read read' hread => ?_
      exact .ok ⟨hread.1, hread.2⟩
    | list => exact unexpectedValue_reordered hr field
  | .list item, x, y, h => by
    cases h with
    | scalar h => exact scalar_reordered hr field (.list item) nofun h
    | reference key => exact unexpectedValue_reordered hr field
    | list length items =>
      have h := forall₂_iff_getElem?.mpr ⟨length, items⟩
      rw [shapeValue, shapeValue]
      refine (itemsOf_reordered (fun _ _ => shapeValue_reordered hc hr field item) h).bind
        fun values values' hvalues => ?_
      exact .ok ⟨Json.Reordered.array_iff.mpr hvalues.1, hvalues.2⟩

end

end Reading

/-- Reads from records, and under variables, that differ in the order of keys have one outcome. -/
theorem readData_reordered {source source' : RecordSource}
    (hsource : ∀ key, Option.Rel Record.Reordered (source key) (source' key))
    {resolver : KeyResolver} (hresolver : resolver.NeverRedirects) {vars vars' : Json.Object}
    (hvars : (Json.object vars).Reordered (.object vars')) (root : RecordKey)
    (selections : List Selection) :
    SameOutcome ReadResult.Reordered (readData source resolver vars root selections)
      (readData source' resolver vars' root selections) := by
  have hc : Reading.Context.Reordered ⟨source, resolver, vars⟩ ⟨source', resolver, vars'⟩ :=
    ⟨hsource, hresolver, hresolver, hvars⟩
  refine (Reading.objectOf_reordered hc root fun _ _ hr =>
    Reading.selectionsEntries_reordered hc hr selections).bind fun read read' hread => .ok ?_
  exact ⟨hread.1, congrArg KeySet.ofList hread.2.fieldKeys, Assoc.Matched.nil.insertAll hread.2.loaded⟩

end GraphClient
