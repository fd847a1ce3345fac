import GraphClient.Proofs.Reading.Written

/-!
# What a read looks up beyond what was written

A response depends on the fields that were written, and a read on the fields that it looks up. They
part only at fields that the response does not settle: a field that an object lacks, one that has
unequal values for one record, and one in a fragment that applies to the record only. A fragment
applies to both where the object has its type settled under its own name.

`LookedUpUnsettled` says that a field key is looked up by reading such a field from the record of an
object on the way. Any other field key that is looked up was written.
-/

namespace GraphClient

namespace Normalization

variable {c : Context}

/-- The object of a visit has a field, and no object with the same key has an unequal value for what
it is stored under. -/
structure Settled (c : Context) (root v : Visit) (f : Field × Shape) : Prop where
  present : (Assoc.get? v.object f.1.responseName).isSome = true
  agreed : ∀ w, Reaches c root w → w.key = v.key → ∀ written other,
    Writes c v (f.1.cacheKey c.vars) written → Writes c w (f.1.cacheKey c.vars) other →
      (other == written) = true

/-- The object of a visit names its type under the name of that field, and the type is settled. -/
def SettlesType (c : Context) (root v : Visit) : Prop :=
  ∃ f ∈ v.fields, f.1.responseName = Json.typenameKey ∧ f.1.cacheKey c.vars = Json.typenameKey ∧
    Settled c root v f

/-- A field applies to the object and is not settled, or does not apply to an object that does not
settle its type. -/
def Unsettled (c : Context) (root v : Visit) (f : Field × Shape) : Prop :=
  (f ∈ v.fields ∧ ¬Settled c root v f) ∨ (f ∉ v.fields ∧ ¬SettlesType c root v)

/-- The field key of a field, and those of the pieces of its value, are among those of the object. -/
theorem FieldsOf.fieldKeys_subset {key : RecordKey} {object : Json.Object}
    {fs : List (Field × Shape)} {fields : List (String × FieldValue)} {pieces : Pieces}
    (h : FieldsOf c key object fs fields pieces) {f : Field × Shape} (hf : f ∈ fs) {value : Json}
    (hvalue : Assoc.get? object f.1.responseName = some value) {stored : FieldValue}
    {inner : Pieces}
    (hstored : shapeValue c f.1 f.2 (key.child (f.1.cacheKey c.vars)) value = .ok (stored, inner)) :
    key.fieldKey (f.1.cacheKey c.vars) :: inner.fieldKeys ⊆ pieces.fieldKeys := by
  induction h with
  | nil => cases hf
  | absent hnone _ ih =>
    rcases List.mem_cons.mp hf with rfl | hf
    · rw [hnone] at hvalue
      cases hvalue
    · exact ih hf
  | present hsome hfirst _ ih =>
    rcases List.mem_cons.mp hf with rfl | hf
    · cases hsome.symm.trans hvalue
      cases hfirst.symm.trans hstored
      intro k hk
      simp only [Pieces.fieldKeys_append, List.mem_append, List.mem_singleton]
      rcases List.mem_cons.mp hk with rfl | hk
      · exact .inl (.inr rfl)
      · exact .inl (.inl hk)
    · exact fun k hk => List.mem_append_right _ (ih hf hk)

end Normalization

namespace Reading

open Normalization (Visit Meets Reaches Writes FieldsOf Settled SettlesType Unsettled)

/-- A field key is looked up by reading a field that the response does not settle, from the record
of an object on the way. -/
def LookedUpUnsettled (c : Normalization.Context) (source : RecordSource) (root : Visit)
    (k : String) : Prop :=
  ∃ v r f value trace, Reaches c root v ∧ source v.key = some r ∧
    f ∈ selectionsApplying (recordTypename? r) v.selections ∧ Unsettled c root v f ∧
    fieldValue (contextOf c source) r f.1 f.2.isObject (shapeValue (contextOf c source) r f.1 f.2) =
      .ok (value, trace) ∧
    k ∈ trace.fieldKeys

/-- A source has what the objects on the way write for settled fields. -/
def HoldsSettled (c : Normalization.Context) (source : RecordSource) (root : Visit) : Prop :=
  ∀ v f written, Reaches c root v → f ∈ v.fields → Settled c root v f →
    Writes c v (f.1.cacheKey c.vars) written → ∃ r, source v.key = some r ∧ r.key = v.key ∧
      ∃ stored, r.field? (f.1.cacheKey c.vars) = some stored ∧ (stored == written) = true

/-- Reading a value that is equal to one written for the shape looks up what was written, or fields
that are not settled. -/
def ShapeCovered (c : Normalization.Context) (source : RecordSource) (root : Visit)
    (shape : Shape) : Prop :=
  ∀ {field path value written pieces},
    Normalization.shapeValue c field shape path value = .ok (written, pieces) →
    (∀ v, Meets c field shape path value v → Reaches c root v) →
    ∀ {r : Record} {stored : FieldValue} {json trace}, (stored == written) = true →
    shapeValue (contextOf c source) r field shape stored = .ok (json, trace) →
    ∀ k ∈ trace.fieldKeys, k ∈ pieces.fieldKeys ∨ LookedUpUnsettled c source root k

variable {c : Normalization.Context} {source : RecordSource} {root v : Visit}

/-- Equal values under the name of the type give one type. -/
theorem recordTypename?_eq_of_beq {r r' : Record} {stored written : FieldValue}
    (hr : r.field? Json.typenameKey = some stored) (hr' : r'.field? Json.typenameKey = some written)
    (h : (stored == written) = true) : recordTypename? r = recordTypename? r' := by
  cases written with
  | scalar value =>
    obtain ⟨json, rfl, hjson⟩ := eq_scalar_of_beq h
    rw [recordTypename?_of_scalar hr, recordTypename?_of_scalar hr',
      Json.asString?_eq_of_equal hjson]
  | reference key =>
    obtain rfl := eq_reference_of_beq h
    rw [recordTypename?, recordTypename?, hr, hr']
  | list items =>
    obtain ⟨kept, rfl, -⟩ := eq_list_of_beq h
    rw [recordTypename?, recordTypename?, hr, hr']

/-- Where the object settles its type, the record names the same type. -/
theorem recordTypename?_eq_of_settlesType (hsource : HoldsSettled c source root)
    (hv : Reaches c root v) {fields : List (String × FieldValue)} {children : Pieces}
    (hfields : FieldsOf c v.key v.object v.fields fields children) {r : Record}
    (hr : source v.key = some r) (htype : SettlesType c root v) :
    recordTypename? r = Json.typename? v.object := by
  obtain ⟨f, hf, hname, hkey, hsettled⟩ := htype
  obtain ⟨value, hvalue⟩ := Option.isSome_iff_exists.mp hsettled.present
  obtain ⟨written, inner, hwritten, -⟩ := hfields.exists_shapeValue hf hvalue
  obtain ⟨r', hr', -, stored, hstored, hequal⟩ :=
    hsource v f written hv hf hsettled ⟨f, hf, rfl, value, inner, hvalue, hwritten⟩
  obtain rfl : r = r' := Option.some.inj (hr.symm.trans hr')
  rw [hkey] at hstored
  rw [hname] at hvalue
  have hwrote : (Record.mk v.key [(Json.typenameKey, written)]).field? Json.typenameKey =
      some written := by simp [Record.field?, Assoc.get?_cons]
  rw [recordTypename?_eq_of_beq hstored hwrote hequal,
    recordTypename?_of_shapeValue hwritten hwrote, Json.typename?, hvalue, Option.bind_some]

/-- A settled field is looked up under the field key under which it was written. -/
theorem fieldValue_covered (hc : c.resolver.NeverRedirects) (hsource : HoldsSettled c source root)
    (hv : Reaches c root v) {fields : List (String × FieldValue)} {children : Pieces}
    (hfields : FieldsOf c v.key v.object v.fields fields children) {r : Record}
    (hr : source v.key = some r) {f : Field × Shape} (hf : f ∈ v.fields)
    (hshape : ShapeCovered c source root f.2) (hsettled : Settled c root v f) {json : Json}
    {trace : Trace}
    (hread : fieldValue (contextOf c source) r f.1 f.2.isObject
      (shapeValue (contextOf c source) r f.1 f.2) = .ok (json, trace)) :
    ∀ k ∈ trace.fieldKeys, k ∈ children.fieldKeys ∨ LookedUpUnsettled c source root k := by
  obtain ⟨value, hvalue⟩ := Option.isSome_iff_exists.mp hsettled.present
  obtain ⟨written, inner, hwritten, -⟩ := hfields.exists_shapeValue hf hvalue
  have hkeys := hfields.fieldKeys_subset hf hvalue hwritten
  obtain ⟨r', hr', hkey, stored, hstored, hequal⟩ :=
    hsource v f written hv hf hsettled ⟨f, hf, rfl, value, inner, hvalue, hwritten⟩
  obtain rfl : r = r' := Option.some.inj (hr.symm.trans hr')
  have hresolver : (contextOf c source).resolver.NeverRedirects := hc
  rw [fieldValue_eq_storedField hresolver] at hread
  obtain ⟨rest, hrest, rfl⟩ := (storedField_of_some (c := contextOf c source) hstored).mp hread
  intro k hk
  rcases List.mem_append.mp hk with hself | hk
  · obtain rfl := List.mem_singleton.mp hself
    exact .inl (hkeys (hkey ▸ List.mem_cons_self))
  · have hinside : ∀ w, Meets c f.1 f.2 (v.key.child (f.1.cacheKey c.vars)) value w →
        Reaches c root w := fun w hw => hv.tail ⟨f, hf, value, hvalue, hw⟩
    exact (hshape hwritten hinside hequal hrest k hk).imp_left
      fun hk => hkeys (List.mem_cons_of_mem _ hk)

theorem objectOf_covered (hc : c.resolver.NeverRedirects) (hsource : HoldsSettled c source root)
    (hv : Reaches c root v) {fields : List (String × FieldValue)} {children : Pieces}
    (hfields : FieldsOf c v.key v.object v.fields fields children)
    (hshapes : ∀ f ∈ v.fields, ShapeCovered c source root f.2) {members : Json.Object}
    {trace : Trace}
    (hread : objectOf source v.key
      (fun r => selectionsEntries (contextOf c source) r v.selections) = .ok (members, trace)) :
    ∀ k ∈ trace.fieldKeys, k ∈ children.fieldKeys ∨ LookedUpUnsettled c source root k := by
  obtain ⟨r, entries, rest, hr, hentries, -, rfl⟩ := objectOf_eq_ok_iff.mp hread
  intro k hk
  obtain ⟨f, hf, value, first, hvalue, hfirst⟩ :=
    (selectionsEntries_eq_ok_iff.mp hentries).mem_fieldKeys_iff.mp hk
  by_cases hunsettled : Unsettled c root v f
  · exact .inr ⟨v, r, f, value, first, hv, hr, hf, hunsettled, hvalue, hfirst⟩
  · obtain ⟨happlied, htype⟩ := not_or.mp hunsettled
    have hfield : f ∈ v.fields := by
      by_contra hnot
      have hsame := recordTypename?_eq_of_settlesType hsource hv hfields hr
        (not_not.mp fun h => htype ⟨hnot, h⟩)
      rw [hsame] at hf
      exact hnot hf
    have hsettled : Settled c root v f := not_not.mp fun h => happlied ⟨hfield, h⟩
    exact fieldValue_covered hc hsource hv hfields hr hfield (hshapes f hfield) hsettled hvalue k
      hfirst

theorem itemsOf_covered {item : Shape} (hitem : ShapeCovered c source root item) {field : Field}
    {path : RecordKey} {start : Nat} {items : List Json} {written : List FieldValue}
    {pieces : Pieces}
    (h : Normalization.itemValues (Normalization.shapeValue c field item) path start items =
      .ok (written, pieces))
    (hreaches : ∀ index x v, items[index]? = some x →
      Meets c field item (path.item (start + index)) x v → Reaches c root v)
    {r : Record} {stored : List FieldValue} (hstored : FieldValue.equalItems stored written = true)
    {values : List Json} {trace : Trace}
    (hread : itemsOf (shapeValue (contextOf c source) r field item) stored = .ok (values, trace)) :
    ∀ k ∈ trace.fieldKeys, k ∈ pieces.fieldKeys ∨ LookedUpUnsettled c source root k := by
  induction stored generalizing start items written pieces values trace with
  | nil =>
    cases hread
    exact fun k hk => absurd hk List.not_mem_nil
  | cons y ys ih =>
    cases items with
    | nil =>
      cases h
      cases hstored
    | cons x xs =>
      obtain ⟨first, others, inner, more, hx, hxs, rfl, rfl⟩ :=
        Normalization.itemValues_cons_eq_ok h
      obtain ⟨hy, hys⟩ := Bool.and_eq_true_iff.mp hstored
      obtain ⟨value, rest, front, back, hvalue, hrest, rfl, rfl⟩ := itemsOf_cons_eq_ok_iff.mp hread
      have hinside : ∀ index z v, xs[index]? = some z →
          Meets c field item (path.item (start + 1 + index)) z v → Reaches c root v := by
        intro index z v hz hmeets
        rw [show start + 1 + index = start + (index + 1) by omega] at hmeets
        exact hreaches (index + 1) z v hz hmeets
      intro k hk
      rcases List.mem_append.mp hk with hk | hk
      · exact (hitem hx (fun v => hreaches 0 x v rfl) hy hvalue k hk).imp_left
          fun hk => List.mem_append_left _ hk
      · exact (ih hxs hinside hys hrest k hk).imp_left fun hk => List.mem_append_right _ hk

theorem shapeCovered (hc : c.resolver.NeverRedirects) (hsource : HoldsSettled c source root)
    (shape : Shape) : ShapeCovered c source root shape := by
  induction shape using Shape.inductionOn with
  | leaf =>
    intro field path value written pieces _ _ r stored json trace _ hread
    obtain ⟨-, rfl⟩ := shapeValue_leaf_eq_ok_iff.mp hread
    exact fun k hk => absurd hk List.not_mem_nil
  | list item ih =>
    intro field path value written pieces h hreaches r stored json trace hstored hread
    obtain ⟨-, -, rfl⟩ | ⟨kept, values, rfl, rfl, hvalues⟩ := shapeValue_list_eq_ok_iff.mp hread
    · exact fun k hk => absurd hk List.not_mem_nil
    · rcases Normalization.shapeValue_list_eq_ok h with
        ⟨rfl, rfl, rfl⟩ | ⟨items, others, rfl, hitems, rfl⟩
      · cases hstored
      · refine itemsOf_covered ih hitems (fun index x v hx hmeets => ?_) hstored hvalues
        rw [Nat.zero_add] at hmeets
        exact hreaches v (.item hx hmeets)
  | object selections ih =>
    intro field path value written pieces h hreaches r stored json trace hstored hread
    obtain ⟨-, -, rfl⟩ | ⟨key, read, rfl, rfl, hmembers⟩ := shapeValue_object_eq_ok_iff.mp hread
    · exact fun k hk => absurd hk List.not_mem_nil
    · rcases Normalization.shapeValue_object_eq_ok h with
        ⟨rfl, rfl, rfl⟩ | ⟨members, target, fields, children, rfl, rfl, hfields, rfl, rfl⟩
      · cases hstored
      · cases eq_reference_of_beq hstored
        exact objectOf_covered hc hsource (hreaches _ .object) hfields (fun f hf => ih _ f hf)
          hmembers

end Reading

/-- What a read depends on was written, or is looked up at a field that is not settled. -/
theorem readData_covered {c : Normalization.Context} (hc : c.resolver.NeverRedirects)
    {root : Normalization.Visit} {source : RecordSource}
    (hsource : Reading.HoldsSettled c source root) {taken : Pieces}
    (htaken : Normalization.pieces c root.key root.selections root.object = .ok taken)
    {result : ReadResult}
    (hread : readData source c.resolver c.vars root.key root.selections = .ok result) :
    ∀ k ∈ result.dependentKeys, k ∈ KeySet.ofList taken.fieldKeys ∨
      Reading.LookedUpUnsettled c source root k := by
  obtain ⟨fields, children, hfields, rfl⟩ := Normalization.pieces_eq_ok htaken
  obtain ⟨trace, hobject, hkeys, -⟩ := readData_eq_ok_iff.mp hread
  intro k hk
  rw [hkeys, KeySet.mem_ofList] at hk
  exact (Reading.objectOf_covered hc hsource .refl hfields
    (fun f _ => Reading.shapeCovered hc hsource f.2) hobject k hk).imp_left KeySet.mem_ofList.mpr

end GraphClient
