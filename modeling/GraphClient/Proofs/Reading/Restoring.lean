import GraphClient.Proofs.Normalization.Places
import GraphClient.Proofs.Reading.Rendering
import GraphClient.Proofs.Reading.Stops
import GraphClient.Proofs.Reading.Written

/-!
# Taking apart what was read

Read data are taken apart again under a resolver that gives no object an identity. Every reference in
the records names the place at which it stands, so the writer computes the very keys that the reader
followed: of a value that shows what is stored, the same is stored again (`restoresShape`). The data
may lack a type that the record has, but never names another, so the writer visits no field that was
not read.

Only one thing can be new. Where the read stopped at a record that lacks a nullable field that applies,
the field was read as `null`, and this `null` is written (`Restores.new`). A record and a field that the
read did not come to are not written.
-/

namespace GraphClient

/-- Every reference in a record that is found names the place at which it stands. -/
def RecordSource.Placed (source : RecordSource) : Prop :=
  ∀ key r, source key = some r → ∀ name value, r.field? name = some value →
    value.PlacedAt (key.child name)

namespace Reading

variable {c : Normalization.Context} {source : RecordSource} {fields : List Field}

/-- A field is written that the record holds with this value, or a nullable one that the record lacks,
as `null`, where one of these stops looks it up in the record. -/
inductive Restores (c : Normalization.Context) (stops : Stop → Prop) (key : RecordKey) (r : Record) :
    String → FieldValue → Prop
  | held {name : String} {value : FieldValue} (h : r.field? name = some value) :
      Restores c stops key r name value
  | new {selections : List Selection} {f : Field × Shape} (hstop : stops ⟨key, r, selections⟩)
      (hf : f ∈ selectionsApplying (recordTypename? r) selections) (nullable : f.1.nullable = true)
      (absent : r.field? (f.1.cacheKey c.vars) = none) :
      Restores c stops key r (f.1.cacheKey c.vars) (.scalar .null)

/-- What is written for a key is restored in the record that is found there. -/
def RestoresRecord (c : Normalization.Context) (source : RecordSource) (stops : Stop → Prop)
    (written : Record) : Prop :=
  ∃ r, source written.key = some r ∧ ∀ name value, written.field? name = some value →
    Restores c stops written.key r name value

/-- Reading a stored value for a shape stops here. -/
def StopsBelow (c : Context) (shape : Shape) (stored : FieldValue) (stop : Stop) : Prop :=
  ∃ target selections, Leads shape stored target selections ∧ Stops c target selections stop

/-- Where a value could be read in a shape, every value that shows the same is taken apart in that
shape into what is stored. -/
def RestoresShape (c : Normalization.Context) (source : RecordSource) (fields : List Field)
    (shape : Shape) : Prop :=
  ∀ {r field stored value trace x path},
    shapeValue (contextOf c source) r field shape stored = .ok (value, trace) →
    Renders (contextOf c source) fields stored x → stored.PlacedAt path →
    ∃ pieces, Normalization.shapeValue c field shape path x = .ok (stored, pieces) ∧
      ∀ written ∈ pieces.records,
        RestoresRecord c source (StopsBelow (contextOf c source) shape stored) written

/-- A member is taken apart as a field of a record that is found: the field is restored, and so are the
records below. -/
def RestoresField (c : Normalization.Context) (source : RecordSource) (stops : Stop → Prop)
    (key : RecordKey) (r : Record) (f : Field × Shape) (x : Json) : Prop :=
  ∃ stored inner, Normalization.shapeValue c f.1 f.2 (key.child (f.1.cacheKey c.vars)) x =
      .ok (stored, inner) ∧ Restores c stops key r (f.1.cacheKey c.vars) stored ∧
    ∀ written ∈ inner.records, RestoresRecord c source stops written

theorem Restores.imp {stops others : Stop → Prop} (himp : ∀ stop, stops stop → others stop)
    {key : RecordKey} {r : Record} {name : String} {value : FieldValue}
    (h : Restores c stops key r name value) : Restores c others key r name value := by
  cases h with
  | held hheld => exact .held hheld
  | new hstop hf nullable absent => exact .new (himp _ hstop) hf nullable absent

theorem RestoresRecord.imp {stops others : Stop → Prop} (himp : ∀ stop, stops stop → others stop)
    {written : Record} (h : RestoresRecord c source stops written) :
    RestoresRecord c source others written := by
  obtain ⟨r, hr, hrestored⟩ := h
  exact ⟨r, hr, fun name value hvalue => (hrestored name value hvalue).imp himp⟩

/-- The data name no type but that of the record. -/
theorem typename?_eq_none_or (hfields : AskedPlainly fields) {key : RecordKey} {r : Record}
    (hr : source key = some r) {members : Json.Object}
    (h : Renders (contextOf c source) fields (.reference key) (.object members)) :
    Json.typename? members = none ∨ Json.typename? members = recordTypename? r := by
  refine or_iff_not_imp_left.mpr fun hsome => ?_
  obtain ⟨typename, htypename⟩ := Option.ne_none_iff_exists'.mp hsome
  obtain ⟨x, hx, hstring⟩ := Option.bind_eq_some_iff.mp htypename
  obtain ⟨f, hf, hname⟩ := h.exists_asked hx
  have hshows := h.shows hr hf (hname ▸ hx)
  rw [hfields.cacheKey_typename hf hname] at hshows
  cases hslot : r.field? Json.typenameKey with
  | none =>
    rw [hshows.absent hslot] at hstring
    cases hstring
  | some v =>
    rw [htypename]
    cases hshows.stored v hslot with
    | scalar => rw [recordTypename?_of_scalar hslot, hstring]
    | object => cases hstring
    | list => cases hstring

/-- A field that could be read at a stop is written as it is held, or is new. -/
theorem restoresField (hc : c.resolver.NeverRedirects) (hsource : source.Placed) {key : RecordKey}
    {r : Record} (hr : source key = some r) {selections : List Selection} {f : Field × Shape}
    (hf : f ∈ selectionsApplying (recordTypename? r) selections)
    (hshape : RestoresShape c source fields f.2) {value x : Json} {trace : Trace}
    (hread : fieldValue (contextOf c source) r f.1 f.2.isObject
      (shapeValue (contextOf c source) r f.1 f.2) = .ok (value, trace))
    (hx : Shows (contextOf c source) fields (r.field? (f.1.cacheKey c.vars)) x) :
    RestoresField c source (Stops (contextOf c source) key selections) key r f x := by
  have hc' : (contextOf c source).resolver.NeverRedirects := hc
  rw [fieldValue_eq_storedField hc'] at hread
  cases hslot : r.field? (f.1.cacheKey (contextOf c source).vars) with
  | some stored =>
    obtain ⟨_, hvalue, -⟩ := (storedField_of_some hslot).mp hread
    obtain ⟨inner, hwritten, hinner⟩ :=
      hshape hvalue (hx.stored stored hslot) (hsource key r hr _ stored hslot)
    refine ⟨stored, inner, hwritten, .held hslot, fun written hmem => (hinner written hmem).imp ?_⟩
    rintro stop ⟨target, selections, hleads, hstop⟩
    exact .onward hr hf hslot hleads hstop
  | none =>
    obtain ⟨hnullable, -⟩ := (storedField_of_none hslot).mp hread
    obtain rfl := hx.absent hslot
    refine ⟨.scalar .null, ∅, ?_, .new (.here hr) hf hnullable hslot, nofun⟩
    cases f.2 <;> rfl

/-- Fields each of which is restored are taken apart one after the other. -/
theorem exists_fieldsOf {stops : Stop → Prop} {key : RecordKey} {r : Record}
    {members : Json.Object} {fs : List (Field × Shape)}
    (h : ∀ f ∈ fs, ∀ x, Assoc.get? members f.1.responseName = some x →
      RestoresField c source stops key r f x) :
    ∃ found children, Normalization.FieldsOf c key members fs found children ∧
      (∀ f ∈ found, Restores c stops key r f.1 f.2) ∧
      ∀ written ∈ children.records, RestoresRecord c source stops written := by
  induction fs with
  | nil => exact ⟨[], ∅, .nil, nofun, nofun⟩
  | cons f fs ih =>
    obtain ⟨hf, hfs⟩ := List.forall_mem_cons.mp h
    obtain ⟨found, children, hfields, hfound, hchildren⟩ := ih hfs
    cases hx : Assoc.get? members f.1.responseName with
    | none => exact ⟨found, children, .absent hx hfields, hfound, hchildren⟩
    | some x =>
      obtain ⟨stored, inner, hvalue, hstored, hinner⟩ := hf x hx
      refine ⟨_, _, .present hx hvalue hfields, List.forall_mem_cons.mpr ⟨hstored, hfound⟩, ?_⟩
      simp only [Pieces.records_append, List.forall_mem_append]
      exact ⟨⟨hinner, nofun⟩, hchildren⟩

/-- An object that shows a record is taken apart at the key of the record, and restores it. -/
theorem exists_selectionsFields (hc : c.resolver.NeverRedirects) (hsource : source.Placed)
    (hfields : AskedPlainly fields) {selections : List Selection}
    (hselections : selectionsAllFields selections ⊆ fields)
    (hshapes : ∀ typename, ∀ f ∈ selectionsApplying typename selections,
      RestoresShape c source fields f.2)
    {key : RecordKey} {read : Json.Object} {trace : Trace}
    (hread : objectOf source key
      (fun r => selectionsEntries (contextOf c source) r selections) = .ok (read, trace))
    {members : Json.Object}
    (h : Renders (contextOf c source) fields (.reference key) (.object members)) :
    ∃ found children,
      Normalization.selectionsFields c key members selections = .ok (found, children) ∧
      ∀ written ∈ (Normalization.objectPieces key found children).records,
        RestoresRecord c source (Stops (contextOf c source) key selections) written := by
  obtain ⟨r, entries, rest, hr, hentries, -, -⟩ := objectOf_eq_ok_iff.mp hread
  have hwalk := selectionsEntries_eq_ok_iff.mp hentries
  have hsub : selectionsApplying (Json.typename? members) selections ⊆
      selectionsApplying (recordTypename? r) selections := by
    rcases typename?_eq_none_or hfields hr h with heq | heq
    · exact heq ▸ selectionsApplying_none_subset _ _
    · exact heq ▸ List.Subset.refl _
  have hrestored : ∀ f ∈ selectionsApplying (Json.typename? members) selections, ∀ x,
      Assoc.get? members f.1.responseName = some x →
        RestoresField c source (Stops (contextOf c source) key selections) key r f x := by
    intro f hf x hx
    have hasked := hselections (allFields_of_applying hf).1
    obtain ⟨value, first, hvalue⟩ := hwalk.exists_fieldValue (hsub hf)
    exact restoresField hc hsource hr (hsub hf) (hshapes _ f hf) hvalue (h.shows hr hasked hx)
  obtain ⟨found, children, hfieldsOf, hfound, hchildren⟩ := exists_fieldsOf hrestored
  refine ⟨found, children, hfieldsOf.selectionsFields, fun written hwritten => ?_⟩
  simp only [Normalization.objectPieces, List.mem_cons, List.mem_append, List.not_mem_nil,
    or_false] at hwritten
  rcases hwritten with rfl | hwritten | rfl
  · exact ⟨r, hr, nofun⟩
  · exact hchildren written hwritten
  · refine ⟨r, (Normalization.key_recordOf key found).symm ▸ hr, fun name value hvalue => ?_⟩
    rw [Normalization.key_recordOf]
    exact hfound _ (Normalization.mem_of_field?_recordOf hvalue)

theorem exists_itemValues {item : Shape} {r : Record} {field : Field}
    (hitem : RestoresShape c source fields item) {path : RecordKey} {index : Nat}
    {stored : List FieldValue} {values : List Json} {trace : Trace}
    (h : itemsOf (shapeValue (contextOf c source) r field item) stored = .ok (values, trace))
    {items : List Json}
    (hrenders : List.Forall₂ (Renders (contextOf c source) fields) stored items)
    (hplaced : FieldValue.PlacedItems path index stored) :
    ∃ pieces, Normalization.itemValues (Normalization.shapeValue c field item) path index items =
        .ok (stored, pieces) ∧
      ∀ written ∈ pieces.records,
        RestoresRecord c source
          (fun stop => ∃ x ∈ stored, StopsBelow (contextOf c source) item x stop) written := by
  induction hrenders generalizing index values trace with
  | nil => exact ⟨∅, rfl, nofun⟩
  | cons hfirst _ ih =>
    obtain ⟨_, _, _, _, hx, hxs, -, -⟩ := itemsOf_cons_eq_ok_iff.mp h
    obtain ⟨inner, hvalue, hinner⟩ := hitem hx hfirst hplaced.1
    obtain ⟨more, hvalues, hmore⟩ := ih hxs hplaced.2
    refine ⟨inner ++ more, bind_eq_ok_iff.mpr ⟨_, hvalue, bind_eq_ok_iff.mpr ⟨_, hvalues, rfl⟩⟩, ?_⟩
    refine List.forall_mem_append.mpr ⟨fun written hmem => (hinner written hmem).imp ?_,
      fun written hmem => (hmore written hmem).imp ?_⟩
    · exact fun stop hstop => ⟨_, List.mem_cons_self, hstop⟩
    · rintro stop ⟨x, hmem, hstop⟩
      exact ⟨x, List.mem_cons_of_mem _ hmem, hstop⟩

theorem restoresShape (hc : c.resolver.NeverRedirects) (hc' : c.resolver.NeverIdentifies)
    (hsource : source.Placed) (hfields : AskedPlainly fields) (shape : Shape)
    (hshape : shape.allFields ⊆ fields) : RestoresShape c source fields shape := by
  induction shape using Shape.inductionOn with
  | leaf =>
    intro r field stored value trace x path h hx hplaced
    obtain ⟨rfl, -⟩ := shapeValue_leaf_eq_ok_iff.mp h
    cases hx
    exact ⟨∅, Normalization.shapeValue_leaf c field path value, nofun⟩
  | list item ih =>
    intro r field stored value trace x path h hx hplaced
    rcases shapeValue_list_eq_ok_iff.mp h with ⟨rfl, -, -⟩ | ⟨items, values, rfl, -, hitems⟩
    · cases hx
      exact ⟨∅, rfl, nofun⟩
    · cases hx with
      | list length pointwise =>
        have hrenders := forall₂_iff_getElem?.mpr ⟨length, pointwise⟩
        obtain ⟨pieces, hvalues, hpieces⟩ := exists_itemValues (ih hshape) hitems hrenders hplaced
        refine ⟨pieces, bind_eq_ok_iff.mpr ⟨_, hvalues, rfl⟩, fun written hmem =>
          (hpieces written hmem).imp ?_⟩
        rintro stop ⟨x, hx, target, selections, hleads, hstop⟩
        exact ⟨target, selections, .item hx hleads, hstop⟩
  | object selections ih =>
    intro r field stored value trace x path h hx hplaced
    rcases shapeValue_object_eq_ok_iff.mp h with ⟨rfl, -, -⟩ | ⟨key, members, rfl, -, hmembers⟩
    · cases hx
      exact ⟨∅, rfl, nofun⟩
    · cases x with
      | object read =>
        obtain rfl : key = path := hplaced
        have hinner : ∀ typename, ∀ f ∈ selectionsApplying typename selections,
            RestoresShape c source fields f.2 := fun typename f hf =>
          ih typename f hf fun g hg => hshape ((allFields_of_applying hf).2 hg)
        obtain ⟨found, children, hfound, hpieces⟩ :=
          exists_selectionsFields hc hsource hfields hshape hinner hmembers hx
        refine ⟨_, ?_, fun written hmem => (hpieces written hmem).imp fun stop hstop =>
          ⟨key, selections, .reference, hstop⟩⟩
        rw [Normalization.shapeValue, hc' field read]
        exact bind_eq_ok_iff.mpr ⟨_, hfound, rfl⟩
      | _ => cases hx

end Reading

end GraphClient
