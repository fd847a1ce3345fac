import GraphClient.Proofs.Reading.Dependencies

/-!
# Where a read stops

A read stops at records: at the root record, and from a record at every one that the value of a field
that applies refers to. `Stops` lists these stops, each with the record that was found and the
selections it is read for. A read that succeeds reports the field keys of all fields that apply at
its stops, and no others (`readData_mem_dependentKeys_iff`).
-/

namespace GraphClient

namespace Reading

/-- A record at which a read stops, under the key it was loaded by, and what is read from it. -/
structure Stop where
  key : RecordKey
  record : Record
  selections : List Selection

namespace Stop

/-- The fields that apply to the type that the record names. -/
def fields (stop : Stop) : List (Field × Shape) :=
  selectionsApplying (recordTypename? stop.record) stop.selections

/-- A field that applies is looked up under this field key. -/
def LooksUp (vars : Json.Object) (stop : Stop) (k : String) : Prop :=
  ∃ f ∈ stop.fields, k = stop.record.key.fieldKey (f.1.cacheKey vars)

end Stop

/-- Reading a stored value for a shape goes on at a record with selections. -/
inductive Leads : Shape → FieldValue → RecordKey → List Selection → Prop
  | reference {selections key} : Leads (.object selections) (.reference key) key selections
  | item {item items x key selections} : x ∈ items → Leads item x key selections →
      Leads (.list item) (.list items) key selections

/-- The stops of a read that starts at a record and is not redirected. -/
inductive Stops (c : Context) : RecordKey → List Selection → Stop → Prop
  | here {key selections r} : c.source key = some r → Stops c key selections ⟨key, r, selections⟩
  | onward {key selections r f stored target inner stop} : c.source key = some r →
      f ∈ selectionsApplying (recordTypename? r) selections →
      r.field? (f.1.cacheKey c.vars) = some stored → Leads f.2 stored target inner →
      Stops c target inner stop → Stops c key selections stop

variable {c : Context}

theorem Stops.source {key : RecordKey} {selections : List Selection} {stop : Stop}
    (h : Stops c key selections stop) : c.source stop.key = some stop.record := by
  induction h with
  | here hr => exact hr
  | onward _ _ _ _ _ ih => exact ih

/-- What is looked up for a stored value is what the stops look up that it leads to. -/
def ShapeTraced (c : Context) (shape : Shape) : Prop :=
  ∀ {r : Record} {field : Field} {stored : FieldValue} {value : Json} {trace : Trace},
    shapeValue c r field shape stored = .ok (value, trace) → ∀ k, k ∈ trace.fieldKeys ↔
      ∃ target inner stop, Leads shape stored target inner ∧ Stops c target inner stop ∧
        stop.LooksUp c.vars k

/-- The look-ups of a field are its own and those of the stops that its value leads to. -/
theorem fieldValue_traced (hc : c.resolver.NeverRedirects) {f : Field × Shape}
    (hshape : ShapeTraced c f.2) {r : Record} {value : Json} {trace : Trace}
    (h : fieldValue c r f.1 f.2.isObject (shapeValue c r f.1 f.2) = .ok (value, trace))
    (k : String) :
    k ∈ trace.fieldKeys ↔ k = r.key.fieldKey (f.1.cacheKey c.vars) ∨
      ∃ stored target inner stop, r.field? (f.1.cacheKey c.vars) = some stored ∧
        Leads f.2 stored target inner ∧ Stops c target inner stop ∧ stop.LooksUp c.vars k := by
  rw [fieldValue_eq_storedField hc] at h
  cases hfield : r.field? (f.1.cacheKey c.vars) with
  | some stored =>
    obtain ⟨rest, hvalue, rfl⟩ := (storedField_of_some hfield).mp h
    rw [Trace.fieldKeys_append, List.mem_append, List.mem_singleton, hshape hvalue k]
    simp only [Option.some.injEq, exists_and_left, exists_eq_left']
  | none =>
    obtain ⟨-, -, rfl⟩ := (storedField_of_none hfield).mp h
    simp

theorem objectOf_traced (hc : c.resolver.NeverRedirects) {selections : List Selection}
    (hshapes : ∀ typename, ∀ f ∈ selectionsApplying typename selections, ShapeTraced c f.2)
    {key : RecordKey} {members : Json.Object} {trace : Trace}
    (h : objectOf c.source key (fun r => selectionsEntries c r selections) = .ok (members, trace))
    (k : String) :
    k ∈ trace.fieldKeys ↔ ∃ stop, Stops c key selections stop ∧ stop.LooksUp c.vars k := by
  obtain ⟨r, entries, rest, hr, hentries, -, rfl⟩ := objectOf_eq_ok_iff.mp h
  have hwalk := selectionsEntries_eq_ok_iff.mp hentries
  rw [Trace.fieldKeys_append, List.nil_append, hwalk.mem_fieldKeys_iff]
  constructor
  · rintro ⟨f, hf, value, first, hvalue, hk⟩
    rcases (fieldValue_traced hc (hshapes _ f hf) hvalue k).mp hk with
      rfl | ⟨stored, target, inner, stop, hstored, hleads, hstop, hlooks⟩
    · exact ⟨⟨key, r, selections⟩, .here hr, f, hf, rfl⟩
    · exact ⟨stop, .onward hr hf hstored hleads hstop, hlooks⟩
  · rintro ⟨stop, hstop, hlooks⟩
    cases hstop with
    | here hr' =>
      obtain rfl := Option.some.inj (hr.symm.trans hr')
      obtain ⟨f, hf, rfl⟩ := hlooks
      obtain ⟨value, first, hvalue⟩ := hwalk.exists_fieldValue hf
      exact ⟨f, hf, value, first, hvalue,
        (fieldValue_traced hc (hshapes _ f hf) hvalue _).mpr (.inl rfl)⟩
    | onward hr' hf hstored hleads hstop =>
      obtain rfl := Option.some.inj (hr.symm.trans hr')
      obtain ⟨value, first, hvalue⟩ := hwalk.exists_fieldValue hf
      exact ⟨_, hf, value, first, hvalue, (fieldValue_traced hc (hshapes _ _ hf) hvalue _).mpr
        (.inr ⟨_, _, _, stop, hstored, hleads, hstop, hlooks⟩)⟩

theorem itemsOf_traced {item : Shape} (hitem : ShapeTraced c item) {r : Record} {field : Field}
    {items : List FieldValue} {values : List Json} {trace : Trace}
    (h : itemsOf (shapeValue c r field item) items = .ok (values, trace)) (k : String) :
    k ∈ trace.fieldKeys ↔ ∃ x ∈ items, ∃ target inner stop, Leads item x target inner ∧
      Stops c target inner stop ∧ stop.LooksUp c.vars k := by
  induction items generalizing values trace with
  | nil =>
    cases h
    exact ⟨fun hk => (nomatch hk), fun ⟨x, hx, _⟩ => (nomatch hx)⟩
  | cons x xs ih =>
    obtain ⟨value, others, first, rest, hvalue, hothers, -, rfl⟩ := itemsOf_cons_eq_ok_iff.mp h
    rw [Trace.fieldKeys_append, List.mem_append, hitem hvalue k, ih hothers]
    simp only [List.mem_cons, exists_eq_or_imp]

theorem shapeTraced (hc : c.resolver.NeverRedirects) (shape : Shape) : ShapeTraced c shape := by
  induction shape using Shape.inductionOn with
  | leaf =>
    intro r field stored value trace h k
    obtain ⟨-, rfl⟩ := shapeValue_leaf_eq_ok_iff.mp h
    exact ⟨fun hk => (nomatch hk), fun ⟨_, _, _, hleads, _⟩ => (nomatch hleads)⟩
  | list item ih =>
    intro r field stored value trace h k
    rcases shapeValue_list_eq_ok_iff.mp h with ⟨rfl, -, rfl⟩ | ⟨items, values, rfl, -, hitems⟩
    · exact ⟨fun hk => (nomatch hk), fun ⟨_, _, _, hleads, _⟩ => (nomatch hleads)⟩
    · rw [itemsOf_traced ih hitems]
      constructor
      · rintro ⟨x, hx, target, inner, stop, hleads, hstop⟩
        exact ⟨target, inner, stop, .item hx hleads, hstop⟩
      · rintro ⟨target, inner, stop, hleads, hstop⟩
        cases hleads with
        | item hx hleads => exact ⟨_, hx, target, inner, stop, hleads, hstop⟩
  | object selections ih =>
    intro r field stored value trace h k
    rcases shapeValue_object_eq_ok_iff.mp h with ⟨rfl, -, rfl⟩ | ⟨key, members, rfl, -, hmembers⟩
    · exact ⟨fun hk => (nomatch hk), fun ⟨_, _, _, hleads, _⟩ => (nomatch hleads)⟩
    · rw [objectOf_traced hc (fun typename f hf => ih typename f hf) hmembers]
      constructor
      · rintro ⟨stop, hstop⟩
        exact ⟨key, selections, stop, .reference, hstop⟩
      · rintro ⟨target, inner, stop, hleads, hstop⟩
        cases hleads
        exact ⟨stop, hstop⟩

end Reading

open Reading (Stop Stops)

/-- A read that succeeds depends on what is looked up at its stops. -/
theorem readData_mem_dependentKeys_iff {source : RecordSource} {resolver : KeyResolver}
    (hresolver : resolver.NeverRedirects) {vars : Json.Object} {root : RecordKey}
    {selections : List Selection} {result : ReadResult}
    (h : readData source resolver vars root selections = .ok result) {k : String} :
    k ∈ result.dependentKeys ↔
      ∃ stop, Stops ⟨source, resolver, vars⟩ root selections stop ∧ stop.LooksUp vars k := by
  obtain ⟨trace, hobject, hkeys, -⟩ := readData_eq_ok_iff.mp h
  rw [hkeys, KeySet.mem_ofList]
  exact Reading.objectOf_traced (c := ⟨source, resolver, vars⟩) hresolver
    (fun _ f _ => Reading.shapeTraced hresolver f.2) hobject k

end GraphClient
