import GraphClient.Proofs.Record.References
import GraphClient.Proofs.Selection.Walk

/-!
# Records that a read misses

A read may fail for a record that is not there, a field that a record lacks, or a value of another
shape. From a source in which every reference leads to a record, only the root record can be missing:
every other record is reached through a reference that some record holds.

The walk stops at the first failure, so it is enough to find one field, one item or one object that
fails in the same way.
-/

namespace GraphClient

/-- Every record that a record of the source refers to is in the source. -/
def RecordSource.Closed (source : RecordSource) : Prop :=
  ∀ key r, source key = some r → ∀ target, r.RefersTo target → (source target).isSome = true

namespace Reading

variable {c : Context}

mutual

theorem exists_of_selectionEntries_eq_error {r : Record} {e : ReadError} :
    ∀ {s : Selection}, selectionEntries c r s = .error e →
      ∃ f ∈ s.applying (recordTypename? r),
        fieldValue c r f.1 f.2.isObject (shapeValue c r f.1 f.2) = .error e
  | .field field shape, h => by
    rw [Selection.applying]
    rw [selectionEntries] at h
    rcases bind_eq_error_iff.mp h with hvalue | ⟨_, -, hpure⟩
    · exact ⟨(field, shape), List.mem_singleton.mpr rfl, hvalue⟩
    · cases hpure
  | .fragment types selections, h => by
    rw [Selection.applying]
    rw [selectionEntries] at h
    split at h
    · next happlies =>
      rw [if_pos happlies]
      exact exists_of_selectionsEntries_eq_error h
    · cases h

/-- A read of a record fails with one of the fields that apply. -/
theorem exists_of_selectionsEntries_eq_error {r : Record} {e : ReadError} :
    ∀ {ss : List Selection}, selectionsEntries c r ss = .error e →
      ∃ f ∈ selectionsApplying (recordTypename? r) ss,
        fieldValue c r f.1 f.2.isObject (shapeValue c r f.1 f.2) = .error e
  | [], h => by
    rw [selectionsEntries] at h
    cases h
  | s :: ss, h => by
    simp only [selectionsApplying_cons, List.mem_append]
    rw [selectionsEntries] at h
    rcases bind_eq_error_iff.mp h with hs | ⟨_, -, h⟩
    · obtain ⟨f, hf, hvalue⟩ := exists_of_selectionEntries_eq_error hs
      exact ⟨f, .inl hf, hvalue⟩
    · rcases bind_eq_error_iff.mp h with hss | ⟨_, -, hpure⟩
      · obtain ⟨f, hf, hvalue⟩ := exists_of_selectionsEntries_eq_error hss
        exact ⟨f, .inr hf, hvalue⟩
      · cases hpure

end

theorem exists_of_itemsOf_eq_error {item : FieldValue → Except ReadError (Json × Trace)}
    {items : List FieldValue} {e : ReadError} (h : itemsOf item items = .error e) :
    ∃ x ∈ items, item x = .error e := by
  induction items with
  | nil => cases h
  | cons x xs ih =>
    rcases bind_eq_error_iff.mp h with hx | ⟨_, -, h⟩
    · exact ⟨x, List.mem_cons_self, hx⟩
    · rcases bind_eq_error_iff.mp h with hxs | ⟨_, -, hpure⟩
      · obtain ⟨y, hy, hvalue⟩ := ih hxs
        exact ⟨y, List.mem_cons_of_mem x hy, hvalue⟩
      · cases hpure

/-- A read that stops at a missing record got to it through a stored value. -/
theorem exists_of_storedField_eq_missingRecord {r : Record} {field : Field} {key : RecordKey}
    {value : FieldValue → Except ReadError (Json × Trace)}
    (h : storedField c r field value = .error (.missingRecord key)) :
    ∃ stored, r.field? (field.cacheKey c.vars) = some stored ∧
      value stored = .error (.missingRecord key) := by
  rw [storedField] at h
  split at h
  · next stored hstored =>
    rcases bind_eq_error_iff.mp h with hvalue | ⟨_, -, hpure⟩
    · exact ⟨stored, hstored, hvalue⟩
    · cases hpure
  · split at h <;> cases h

/-- No record is missing when a shape is read from a value whose references lead to records. -/
def NoneMissing (c : Context) (shape : Shape) : Prop :=
  ∀ {r field stored key}, (∀ target, stored.RefersTo target → (c.source target).isSome = true) →
    shapeValue c r field shape stored ≠ .error (.missingRecord key)

/-- An object from the source is read without missing a record. -/
theorem objectOf_ne_missingRecord (hc : c.resolver.NeverRedirects) (hclosed : c.source.Closed)
    {selections : List Selection}
    (hshapes : ∀ typename, ∀ f ∈ selectionsApplying typename selections, NoneMissing c f.2)
    {key missing : RecordKey} (hkey : (c.source key).isSome = true) :
    objectOf c.source key (fun r => selectionsEntries c r selections) ≠
      .error (.missingRecord missing) := by
  intro h
  obtain ⟨r, hr⟩ := Option.isSome_iff_exists.mp hkey
  rw [objectOf, hr] at h
  rcases bind_eq_error_iff.mp h with hentries | ⟨_, -, hpure⟩
  · obtain ⟨⟨field, shape⟩, hf, hvalue⟩ := exists_of_selectionsEntries_eq_error hentries
    rw [fieldValue_eq_storedField hc] at hvalue
    obtain ⟨stored, hstored, hread⟩ := exists_of_storedField_eq_missingRecord hvalue
    refine hshapes _ _ hf (fun target hrefers => ?_) hread
    exact hclosed key r hr target ⟨_, Assoc.mem_of_get?_eq_some hstored, hrefers⟩
  · cases hpure

theorem noneMissing (hc : c.resolver.NeverRedirects) (hclosed : c.source.Closed) (shape : Shape) :
    NoneMissing c shape := by
  induction shape using Shape.inductionOn with
  | leaf =>
    intro r field stored key _ h
    cases stored with
    | scalar value => cases value <;> cases h
    | _ => cases h
  | list item ih =>
    intro r field stored key hstored h
    match stored with
    | .list items =>
      rw [shapeValue] at h
      rcases bind_eq_error_iff.mp h with hitems | ⟨_, -, hpure⟩
      · obtain ⟨x, hx, hread⟩ := exists_of_itemsOf_eq_error hitems
        exact ih (fun target hrefers => hstored target (.item hx hrefers)) hread
      · cases hpure
    | .scalar value => cases value <;> cases h
    | .reference target => cases h
  | object selections ih =>
    intro r field stored key hstored h
    match stored with
    | .reference target =>
      rw [shapeValue] at h
      rcases bind_eq_error_iff.mp h with hobject | ⟨_, -, hpure⟩
      · exact objectOf_ne_missingRecord hc hclosed ih (hstored target (.reference target)) hobject
      · cases hpure
    | .scalar value => cases value <;> cases h
    | .list items => cases h

end Reading

/-- Where every reference leads to a record, a read misses no record but that of its root. -/
theorem readData_eq_missingRecord {source : RecordSource} (hsource : source.Closed)
    {resolver : KeyResolver} (hresolver : resolver.NeverRedirects) {vars : Json.Object}
    {root key : RecordKey} {selections : List Selection}
    (h : readData source resolver vars root selections = .error (.missingRecord key)) :
    key = root ∧ source root = none := by
  rw [readData] at h
  rcases bind_eq_error_iff.mp h with hobject | ⟨_, -, hpure⟩
  · cases hroot : source root with
    | none =>
      rw [Reading.objectOf, hroot] at hobject
      cases hobject
      exact ⟨rfl, rfl⟩
    | some r =>
      have hfound : (source root).isSome = true := by rw [hroot]; rfl
      exact absurd hobject (Reading.objectOf_ne_missingRecord
        (c := ⟨source, resolver, vars⟩) hresolver hsource
        (fun _ f _ => Reading.noneMissing hresolver hsource f.2) hfound)
  · cases hpure

end GraphClient
