import GraphClient.Proofs.Record.KeyOrder
import GraphClient.Proofs.Selection.Walk

/-!
# The records a read has loaded

A read that succeeds has loaded its records from the source, and it has looked at nothing else: any
other source that has these records is read with the same data and the same trace (`objectOf_loaded`).
So taking a record away makes a read fail just when the read has loaded it: if it still succeeded, it
would have loaded the same records from the source with all of them.
-/

namespace GraphClient

/-- The source but for the record of one key. -/
def RecordSource.without (source : RecordSource) (key : RecordKey) : RecordSource :=
  fun k => if k = key then none else source k

@[simp] theorem RecordSource.without_self (source : RecordSource) (key : RecordKey) :
    source.without key key = none := if_pos rfl

theorem RecordSource.without_of_ne (source : RecordSource) {key k : RecordKey} (h : k ≠ key) :
    source.without key k = source k := if_neg h

/-- The source has the records that were loaded. -/
def Trace.FoundIn (trace : Trace) (source : RecordSource) : Prop :=
  ∀ entry ∈ trace.loaded, source entry.1 = some entry.2

@[simp] theorem Trace.foundIn_append {source : RecordSource} {a b : Trace} :
    (a ++ b).FoundIn source ↔ a.FoundIn source ∧ b.FoundIn source := by
  simp only [Trace.FoundIn, Trace.loaded_append, List.forall_mem_append]

@[simp] theorem Trace.foundIn_empty (source : RecordSource) : (∅ : Trace).FoundIn source := nofun

/-- Nothing is loaded to look up a field. -/
@[simp] theorem Trace.foundIn_fieldKeys (fieldKeys : List String) (source : RecordSource) :
    Trace.FoundIn ⟨fieldKeys, []⟩ source := nofun

@[simp] theorem Trace.foundIn_singleton {source : RecordSource} {key : RecordKey} {r : Record} :
    Trace.FoundIn ⟨[], [(key, r)]⟩ source ↔ source key = some r := by
  simp [Trace.FoundIn]

namespace Reading

variable {c : Context}

/-- What a shape reads from a stored value was loaded from the source, and is read again from any
source with these records. -/
def ReadsLoaded (c : Context) (shape : Shape) : Prop :=
  ∀ {r field stored value trace}, shapeValue c r field shape stored = .ok (value, trace) →
    trace.FoundIn c.source ∧ ∀ after : RecordSource, trace.FoundIn after →
      shapeValue { c with source := after } r field shape stored = .ok (value, trace)

theorem storedField_loaded {shape : Shape} (hshape : ReadsLoaded c shape) {r : Record} {field : Field}
    {value : Json} {trace : Trace}
    (h : storedField c r field (shapeValue c r field shape) = .ok (value, trace)) :
    trace.FoundIn c.source ∧ ∀ after : RecordSource, trace.FoundIn after →
      storedField { c with source := after } r field
        (shapeValue { c with source := after } r field shape) = .ok (value, trace) := by
  cases hfield : r.field? (field.cacheKey c.vars) with
  | some stored =>
    obtain ⟨rest, hvalue, rfl⟩ := (storedField_of_some hfield).mp h
    obtain ⟨hfound, hagain⟩ := hshape hvalue
    refine ⟨by simpa using hfound, fun after hafter => ?_⟩
    exact (storedField_of_some hfield).mpr ⟨rest, hagain after (by simpa using hafter), rfl⟩
  | none =>
    have hread := (storedField_of_none hfield).mp h
    refine ⟨by simp [hread.2.2], fun after _ => ?_⟩
    exact (storedField_of_none hfield).mpr hread

theorem EntriesOf.loaded (hc : c.resolver.NeverRedirects) {r : Record} {fs : List (Field × Shape)}
    (hshapes : ∀ f ∈ fs, ReadsLoaded c f.2) {entries : List (String × Json)} {trace : Trace}
    (h : EntriesOf c r fs entries trace) :
    trace.FoundIn c.source ∧ ∀ after : RecordSource, trace.FoundIn after →
      EntriesOf { c with source := after } r fs entries trace := by
  induction h with
  | nil => exact ⟨by simp, fun _ _ => .nil⟩
  | cons hvalue _ ih =>
    obtain ⟨hshape, hshapes⟩ := List.forall_mem_cons.mp hshapes
    rw [fieldValue_eq_storedField hc] at hvalue
    obtain ⟨hfirst, hfirstAgain⟩ := storedField_loaded hshape hvalue
    obtain ⟨hrest, hrestAgain⟩ := ih hshapes
    refine ⟨Trace.foundIn_append.mpr ⟨hfirst, hrest⟩, fun after hafter => ?_⟩
    obtain ⟨hafterFirst, hafterRest⟩ := Trace.foundIn_append.mp hafter
    refine .cons ?_ (hrestAgain after hafterRest)
    rw [fieldValue_eq_storedField (c := { c with source := after }) hc]
    exact hfirstAgain after hafterFirst

theorem objectOf_loaded (hc : c.resolver.NeverRedirects) {selections : List Selection}
    (hshapes : ∀ typename, ∀ f ∈ selectionsApplying typename selections, ReadsLoaded c f.2)
    {key : RecordKey} {members : Json.Object} {trace : Trace}
    (h : objectOf c.source key (fun r => selectionsEntries c r selections) = .ok (members, trace)) :
    trace.FoundIn c.source ∧ ∀ after : RecordSource, trace.FoundIn after →
      objectOf after key (fun r => selectionsEntries { c with source := after } r selections) =
        .ok (members, trace) := by
  obtain ⟨r, entries, rest, hsource, hentries, rfl, rfl⟩ := objectOf_eq_ok_iff.mp h
  obtain ⟨hfound, hagain⟩ := (selectionsEntries_eq_ok_iff.mp hentries).loaded hc (hshapes _)
  refine ⟨by simp [hsource, hfound], fun after hafter => ?_⟩
  obtain ⟨hkey, hrest⟩ := Trace.foundIn_append.mp hafter
  exact objectOf_eq_ok_iff.mpr ⟨r, entries, rest, Trace.foundIn_singleton.mp hkey,
    selectionsEntries_eq_ok_iff.mpr (hagain after hrest), rfl, rfl⟩

theorem itemsOf_loaded {item : Shape} (hitem : ReadsLoaded c item) {r : Record} {field : Field}
    {items : List FieldValue} {values : List Json} {trace : Trace}
    (h : itemsOf (shapeValue c r field item) items = .ok (values, trace)) :
    trace.FoundIn c.source ∧ ∀ after : RecordSource, trace.FoundIn after →
      itemsOf (shapeValue { c with source := after } r field item) items = .ok (values, trace) := by
  induction items generalizing values trace with
  | nil =>
    cases h
    exact ⟨by simp, fun _ _ => rfl⟩
  | cons x xs ih =>
    obtain ⟨value, others, first, rest, hvalue, hothers, rfl, rfl⟩ := itemsOf_cons_eq_ok_iff.mp h
    obtain ⟨hfirst, hfirstAgain⟩ := hitem hvalue
    obtain ⟨hrest, hrestAgain⟩ := ih hothers
    refine ⟨Trace.foundIn_append.mpr ⟨hfirst, hrest⟩, fun after hafter => ?_⟩
    obtain ⟨hafterFirst, hafterRest⟩ := Trace.foundIn_append.mp hafter
    exact itemsOf_cons_eq_ok_iff.mpr ⟨value, others, first, rest, hfirstAgain after hafterFirst,
      hrestAgain after hafterRest, rfl, rfl⟩

theorem readsLoaded (hc : c.resolver.NeverRedirects) (shape : Shape) : ReadsLoaded c shape := by
  induction shape using Shape.inductionOn with
  | leaf =>
    intro r field stored value trace h
    have hread := shapeValue_leaf_eq_ok_iff.mp h
    exact ⟨by simp [hread.2], fun _ _ => shapeValue_leaf_eq_ok_iff.mpr hread⟩
  | list item ih =>
    intro r field stored value trace h
    rcases shapeValue_list_eq_ok_iff.mp h with hnull | ⟨items, values, rfl, rfl, hitems⟩
    · exact ⟨by simp [hnull.2.2], fun _ _ => shapeValue_list_eq_ok_iff.mpr (.inl hnull)⟩
    · obtain ⟨hfound, hagain⟩ := itemsOf_loaded ih hitems
      exact ⟨hfound, fun after hafter => shapeValue_list_eq_ok_iff.mpr
        (.inr ⟨items, values, rfl, rfl, hagain after hafter⟩)⟩
  | object selections ih =>
    intro r field stored value trace h
    rcases shapeValue_object_eq_ok_iff.mp h with hnull | ⟨key, members, rfl, rfl, hmembers⟩
    · exact ⟨by simp [hnull.2.2], fun _ _ => shapeValue_object_eq_ok_iff.mpr (.inl hnull)⟩
    · obtain ⟨hfound, hagain⟩ := objectOf_loaded hc ih hmembers
      exact ⟨hfound, fun after hafter => shapeValue_object_eq_ok_iff.mpr
        (.inr ⟨key, members, rfl, rfl, hagain after hafter⟩)⟩

end Reading

/-- The table of what was loaded has, under every key, the record of the source. -/
theorem Trace.FoundIn.get?_ofEntries {trace : Trace} {source : RecordSource}
    (h : trace.FoundIn source) (key : RecordKey) :
    Assoc.get? (Assoc.ofEntries trace.loaded) key =
      if key ∈ Assoc.keys (Assoc.ofEntries trace.loaded) then source key else none := by
  split
  · next hmem =>
    obtain ⟨before, r, after, hloaded, hafter⟩ :=
      Assoc.exists_last (Assoc.mem_keys_ofEntries.mp hmem)
    have hfound := h (key, r) (by rw [hloaded]; simp)
    rw [hfound, hloaded, Assoc.get?_ofEntries hafter]
  · next hmem => rwa [Assoc.mem_keys_iff, Option.not_isSome_iff_eq_none] at hmem

section ReadData

variable {before : RecordSource} {resolver : KeyResolver} (hresolver : resolver.NeverRedirects)
  {vars : Json.Object} {root : RecordKey} {selections : List Selection} {result : ReadResult}
  (h : readData before resolver vars root selections = .ok result)

include hresolver h

theorem get?_records (key : RecordKey) :
    Assoc.get? result.records key =
      if key ∈ Assoc.keys result.records then before key else none := by
  obtain ⟨trace, hobject, -, hrecords⟩ := readData_eq_ok_iff.mp h
  rw [hrecords]
  exact (Reading.objectOf_loaded (c := ⟨before, resolver, vars⟩) hresolver
    (fun _ f _ => Reading.readsLoaded hresolver f.2) hobject).1.get?_ofEntries key

/-- A source that has the records that were loaded is read with the same result. -/
theorem readData_of_loaded (after : RecordSource)
    (hafter : ∀ key ∈ Assoc.keys result.records, after key = before key) :
    readData after resolver vars root selections = .ok result := by
  obtain ⟨trace, hobject, hkeys, hrecords⟩ := readData_eq_ok_iff.mp h
  obtain ⟨hfound, hagain⟩ := Reading.objectOf_loaded (c := ⟨before, resolver, vars⟩) hresolver
    (fun _ f _ => Reading.readsLoaded hresolver f.2) hobject
  refine readData_eq_ok_iff.mpr ⟨trace, hagain after fun entry hentry => ?_, hkeys, hrecords⟩
  have hmem : entry.1 ∈ Assoc.keys result.records := by
    rw [hrecords, Assoc.mem_keys_ofEntries]
    exact List.mem_map_of_mem hentry
  rw [hafter _ hmem]
  exact hfound entry hentry

omit hresolver in
/-- The root record is loaded first. -/
theorem root_mem_records : root ∈ Assoc.keys result.records := by
  obtain ⟨trace, hobject, -, hrecords⟩ := readData_eq_ok_iff.mp h
  obtain ⟨r, entries, rest, -, -, -, rfl⟩ := Reading.objectOf_eq_ok_iff.mp hobject
  rw [hrecords, Assoc.mem_keys_ofEntries]
  simp

/-- The records that were loaded are those without which the read fails. -/
theorem mem_records_iff (key : RecordKey) :
    key ∈ Assoc.keys result.records ↔
      ∃ e, readData (before.without key) resolver vars root selections = .error e := by
  constructor
  · intro hmem
    cases hread : readData (before.without key) resolver vars root selections with
    | error e => exact ⟨e, rfl⟩
    | ok other =>
      -- a read without the record would load the same records, this one too
      have hloaded := get?_records hresolver hread
      have hpresent : ∀ k ∈ Assoc.keys other.records, (before.without key k).isSome = true := by
        intro k hk
        have hk' := hloaded k
        rw [if_pos hk] at hk'
        rw [← hk']
        exact Assoc.mem_keys_iff.mp hk
      have hsame := readData_of_loaded hresolver hread before fun k hk => by
        refine (before.without_of_ne ?_).symm
        rintro rfl
        simpa using hpresent k hk
      rw [h] at hsame
      cases hsame
      simpa using hpresent key hmem
  · rintro ⟨e, he⟩
    refine Decidable.byContradiction fun hmem => ?_
    have hread := readData_of_loaded hresolver h (before.without key) fun k hk => by
      refine before.without_of_ne ?_
      rintro rfl
      exact hmem hk
    rw [he] at hread
    cases hread

end ReadData

end GraphClient
