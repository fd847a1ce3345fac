import GraphClient.Proofs.Record.Merging
import GraphClient.Proofs.Selection.Walk
import GraphClient.Storage.Memory
import GraphClient.Store

/-!
# What the data of a read depends on

A read that succeeds reports the field keys it looked up. Two sources of records that differ in fields
with other field keys only, give the same data and the same report (`objectOf_kept`), as far as two
look-ups that are not in the trace of a read come out the same. One is that of the concrete type for a
fragment: it is covered when the type is also looked up as a field wherever a fragment is
(`TypeLookedUp`), which is what `TypenameSelected` asks of a selection set. The other is that of a
record that the arguments of a field name. A record that was found stays, but one for which a read has
looked in vain (`Tries`) may be there later.

A merge leaves the fields alone that it does not report, so a merge whose report is disjoint from
that of a read does not change what is read without redirections.
-/

namespace GraphClient

/-- The field of the concrete type is selected directly where there is a fragment. -/
def TypenameSelected (selections : List Selection) : Prop :=
  selections.any Selection.isFragment = true →
    ∃ field shape, .field field shape ∈ selections ∧ field.name = Json.typenameKey ∧
      field.arguments = []

/-- Every record of `before` is also in `after`, but for fields that changed. -/
def RecordSource.KeptOutside (changed : KeySet) (before after : RecordSource) : Prop :=
  ∀ key r, before key = some r → ∃ r', after key = some r' ∧ r.KeptOutside changed r'

/-- None of the fields that were looked up has changed. -/
def Trace.Avoids (trace : Trace) (changed : KeySet) : Prop := ∀ k ∈ trace.fieldKeys, k ∉ changed

theorem Trace.avoids_append {changed : KeySet} {a b : Trace} :
    (a ++ b).Avoids changed ↔ a.Avoids changed ∧ b.Avoids changed := by
  simp only [Trace.Avoids, Trace.fieldKeys_append, List.forall_mem_append]

namespace Reading

/-- The record that the arguments of a field name, when it is an object field and there is such a
record. -/
def Context.target? (c : Context) (f : Field × Shape) : Option RecordKey :=
  if f.2.isObject then redirect? c f.1 else none

/-- What an object field or another one is read from: the record that its arguments name, or what the
record stores for it. -/
def Context.stored? (c : Context) (r : Record) (f : Field × Shape) : Option FieldValue :=
  match c.target? f with
  | some key => some (.reference key)
  | none => r.field? (f.1.cacheKey c.vars)

/-- The arguments of an object field name a record, and there is none under its key. -/
structure Context.Misses (c : Context) (f : Field × Shape) (key : RecordKey) : Prop where
  isObject : f.2.isObject = true
  named : c.resolver.ofArguments f.1 c.vars = some key
  absent : c.source key = none

/-- Reading a stored value for a shape looks in vain for a record under a key. -/
inductive Tries (c : Context) : Shape → FieldValue → RecordKey → Prop
  | here {selections key r f tried} : c.source key = some r →
      f ∈ selectionsApplying (recordTypename? r) selections → c.Misses f tried →
      Tries c (.object selections) (.reference key) tried
  | onward {selections key r f stored tried} : c.source key = some r →
      f ∈ selectionsApplying (recordTypename? r) selections → c.stored? r f = some stored →
      Tries c f.2 stored tried → Tries c (.object selections) (.reference key) tried
  | item {item items x tried} : x ∈ items → Tries c item x tried →
      Tries c (.list item) (.list items) tried

/-- The records that were looked for in vain are still not there. -/
def StillMissing (c : Context) (after : RecordSource) (shape : Shape) (stored : FieldValue) : Prop :=
  ∀ key, Tries c shape stored key → after key = none

/-- Where there is a fragment, the concrete type is also looked up as a field. -/
def TypeLookedUp (c : Context) (selections : List Selection) : Prop :=
  selections.any Selection.isFragment = true →
    ∃ field shape, .field field shape ∈ selections ∧ field.name = Json.typenameKey ∧
      field.arguments = [] ∧ c.target? (field, shape) = none

variable {c : Context} {changed : KeySet} {after : RecordSource}

theorem Tries.exists_misses {shape : Shape} {stored : FieldValue} {key : RecordKey}
    (h : Tries c shape stored key) : ∃ f, c.Misses f key := by
  induction h with
  | here _ _ hmisses => exact ⟨_, hmisses⟩
  | onward _ _ _ _ ih => exact ih
  | item _ _ ih => exact ih

theorem not_tries (hc : c.resolver.NeverRedirects) {shape : Shape} {stored : FieldValue}
    {key : RecordKey} : ¬ Tries c shape stored key := by
  intro h
  obtain ⟨f, hmisses⟩ := h.exists_misses
  cases (hc f.1 c.vars).symm.trans hmisses.named

theorem target?_eq_none (hc : c.resolver.NeverRedirects) (f : Field × Shape) :
    c.target? f = none := by
  have hredirect : redirect? c f.1 = none := by rw [redirect?, hc f.1 c.vars]; rfl
  rw [Context.target?, hredirect, ite_self]

theorem fieldValue_of_target {f : Field × Shape} {key : RecordKey} (h : c.target? f = some key)
    (r : Record) (value : FieldValue → Except ReadError (Json × Trace)) :
    fieldValue c r f.1 f.2.isObject value = value (.reference key) := by
  rw [Context.target?] at h
  rw [fieldValue, h]

theorem fieldValue_of_no_target {f : Field × Shape} (h : c.target? f = none) (r : Record)
    (value : FieldValue → Except ReadError (Json × Trace)) :
    fieldValue c r f.1 f.2.isObject value = storedField c r f.1 value := by
  rw [Context.target?] at h
  rw [fieldValue, h]

theorem recordTypename?_eq {r r' : Record}
    (h : r'.field? Json.typenameKey = r.field? Json.typenameKey) :
    recordTypename? r' = recordTypename? r := by
  rw [recordTypename?, h, recordTypename?]

/-- A record that was found stays, so a field is redirected as before, unless a record is there now
that was missing. -/
theorem target?_kept (hkept : c.source.KeptOutside changed after) {f : Field × Shape}
    (hmissing : ∀ key, c.Misses f key → after key = none) :
    Context.target? { c with source := after } f = c.target? f := by
  rw [Context.target?, Context.target?]
  split
  · next hobject =>
    rw [redirect?, redirect?]
    cases hnamed : c.resolver.ofArguments f.1 c.vars with
    | none => rfl
    | some key =>
      cases hsource : c.source key with
      | none =>
        have hafter := hmissing key ⟨hobject, hnamed, hsource⟩
        simp only [Option.filter_some, hsource, hafter]
      | some r =>
        obtain ⟨r', hafter, -⟩ := hkept key r hsource
        simp only [Option.filter_some, hsource, hafter, Option.isSome_some]
  · rfl

/-- What a shape reads from a stored value is read again from the changed source. -/
def ShapeKept (c : Context) (changed : KeySet) (after : RecordSource) (shape : Shape) : Prop :=
  ∀ {r : Record} (r' : Record) {field : Field} {stored : FieldValue} {value : Json} {trace : Trace},
    shapeValue c r field shape stored = .ok (value, trace) → trace.Avoids changed →
    StillMissing c after shape stored →
    ∃ trace', shapeValue { c with source := after } r' field shape stored = .ok (value, trace') ∧
      trace'.fieldKeys = trace.fieldKeys

/-- A field of a record that was kept is redirected, found or absent again. -/
theorem fieldValue_kept (hkept : c.source.KeptOutside changed after) {f : Field × Shape}
    (hshape : ShapeKept c changed after f.2) {r r' : Record} (hr : r.KeptOutside changed r')
    (hmissing : ∀ key, c.Misses f key → after key = none)
    (honward : ∀ stored, c.stored? r f = some stored → StillMissing c after f.2 stored)
    {value : Json} {trace : Trace}
    (h : fieldValue c r f.1 f.2.isObject (shapeValue c r f.1 f.2) = .ok (value, trace))
    (havoid : trace.Avoids changed) :
    ∃ trace', fieldValue { c with source := after } r' f.1 f.2.isObject
        (shapeValue { c with source := after } r' f.1 f.2) = .ok (value, trace') ∧
      trace'.fieldKeys = trace.fieldKeys := by
  have htarget := target?_kept hkept hmissing
  cases hredirect : c.target? f with
  | some key =>
    have hstored : c.stored? r f = some (.reference key) := by rw [Context.stored?, hredirect]
    rw [fieldValue_of_target hredirect] at h
    rw [fieldValue_of_target (htarget.trans hredirect)]
    exact hshape r' h havoid (honward _ hstored)
  | none =>
    have hstored : c.stored? r f = r.field? (f.1.cacheKey c.vars) := by
      rw [Context.stored?, hredirect]
    rw [fieldValue_of_no_target hredirect] at h
    rw [fieldValue_of_no_target (htarget.trans hredirect)]
    cases hfield : r.field? (f.1.cacheKey c.vars) with
    | some stored =>
      obtain ⟨rest, hvalue, rfl⟩ := (storedField_of_some hfield).mp h
      obtain ⟨hself, hrest⟩ := Trace.avoids_append.mp havoid
      have hfield' : r'.field? (f.1.cacheKey c.vars) = some stored := by
        rw [hr.field _ (hself _ List.mem_cons_self), hfield]
      obtain ⟨rest', hvalue', hkeys⟩ := hshape r' hvalue hrest (honward _ (hstored.trans hfield))
      refine ⟨_, (storedField_of_some hfield').mpr ⟨rest', hvalue', rfl⟩, ?_⟩
      rw [Trace.fieldKeys_append, Trace.fieldKeys_append, hkeys, hr.key]
    | none =>
      obtain ⟨hnullable, rfl, rfl⟩ := (storedField_of_none hfield).mp h
      have hfield' : r'.field? (f.1.cacheKey c.vars) = none := by
        rw [hr.field _ (havoid _ List.mem_cons_self), hfield]
      refine ⟨_, (storedField_of_none hfield').mpr ⟨hnullable, rfl, rfl⟩, ?_⟩
      rw [hr.key]

theorem entriesOf_kept (hkept : c.source.KeptOutside changed after) {fs : List (Field × Shape)}
    (hshapes : ∀ f ∈ fs, ShapeKept c changed after f.2) {r r' : Record}
    (hr : r.KeptOutside changed r')
    (hmissing : ∀ f ∈ fs, ∀ key, c.Misses f key → after key = none)
    (honward : ∀ f ∈ fs, ∀ stored, c.stored? r f = some stored → StillMissing c after f.2 stored)
    {entries : List (String × Json)} {trace : Trace}
    (h : EntriesOf c r fs entries trace) (havoid : trace.Avoids changed) :
    ∃ trace', EntriesOf { c with source := after } r' fs entries trace' ∧
      trace'.fieldKeys = trace.fieldKeys := by
  induction h with
  | nil => exact ⟨∅, .nil, rfl⟩
  | cons hvalue _ ih =>
    obtain ⟨hshape, hshapes⟩ := List.forall_mem_cons.mp hshapes
    obtain ⟨hmiss, hmissing⟩ := List.forall_mem_cons.mp hmissing
    obtain ⟨hon, honward⟩ := List.forall_mem_cons.mp honward
    obtain ⟨hfirst, hrest⟩ := Trace.avoids_append.mp havoid
    obtain ⟨first', hvalue', hkeys⟩ := fieldValue_kept hkept hshape hr hmiss hon hvalue hfirst
    obtain ⟨rest', hentries', hkeys'⟩ := ih hshapes hmissing honward hrest
    refine ⟨first' ++ rest', .cons hvalue' hentries', ?_⟩
    rw [Trace.fieldKeys_append, Trace.fieldKeys_append, hkeys, hkeys']

/-- The type that a record names was looked up where it decided about a fragment. -/
theorem fieldKey_typename_mem {fs : List (Field × Shape)}
    {r : Record} {entries : List (String × Json)} {trace : Trace}
    (h : EntriesOf c r fs entries trace) {field : Field} {shape : Shape} (hmem : (field, shape) ∈ fs)
    (hname : field.name = Json.typenameKey) (harguments : field.arguments = [])
    (htarget : c.target? (field, shape) = none) :
    r.key.fieldKey Json.typenameKey ∈ trace.fieldKeys := by
  induction h with
  | nil => cases hmem
  | @cons first firstShape fs entries value firstTrace rest hvalue _ ih =>
    rw [Trace.fieldKeys_append, List.mem_append]
    rcases List.mem_cons.mp hmem with heq | hmem
    · cases heq
      have hkey : field.cacheKey c.vars = Json.typenameKey := by
        rw [Field.cacheKey_of_no_arguments harguments, hname]
      rw [fieldValue_of_no_target htarget] at hvalue
      left
      cases hfield : r.field? (field.cacheKey c.vars) with
      | some stored =>
        obtain ⟨inner, -, rfl⟩ := (storedField_of_some hfield).mp hvalue
        rw [hkey]
        exact List.mem_cons_self
      | none =>
        obtain ⟨-, -, rfl⟩ := (storedField_of_none hfield).mp hvalue
        rw [hkey]
        exact List.mem_cons_self
    · exact .inr (ih hmem)

theorem objectOf_kept (hkept : c.source.KeptOutside changed after)
    {selections : List Selection} (htype : TypeLookedUp c selections)
    (hshapes : ∀ typename, ∀ f ∈ selectionsApplying typename selections,
      ShapeKept c changed after f.2)
    {key : RecordKey} (hmissing : StillMissing c after (.object selections) (.reference key))
    {members : Json.Object} {trace : Trace}
    (h : objectOf c.source key (fun r => selectionsEntries c r selections) = .ok (members, trace))
    (havoid : trace.Avoids changed) :
    ∃ trace', objectOf after key
        (fun r => selectionsEntries { c with source := after } r selections) =
          .ok (members, trace') ∧
      trace'.fieldKeys = trace.fieldKeys := by
  obtain ⟨r, entries, rest, hsource, hentries, rfl, rfl⟩ := objectOf_eq_ok_iff.mp h
  obtain ⟨r', hafter, hr⟩ := hkept key r hsource
  have hrest := (Trace.avoids_append.mp havoid).2
  have hwalk := selectionsEntries_eq_ok_iff.mp hentries
  -- the changed source decides about every fragment as before
  have happlying : selectionsApplying (recordTypename? r') selections =
      selectionsApplying (recordTypename? r) selections := by
    cases hfragment : selections.any Selection.isFragment with
    | false => exact selectionsApplying_eq_of_no_fragment hfragment _ _
    | true =>
      obtain ⟨field, shape, hmem, hname, harguments, htarget⟩ := htype hfragment
      have hlooked := fieldKey_typename_mem hwalk (mem_selectionsApplying_of_mem hmem _) hname
        harguments htarget
      rw [recordTypename?_eq (hr.field _ (hrest _ hlooked))]
  obtain ⟨rest', hwalk', hkeys⟩ := entriesOf_kept hkept (hshapes (recordTypename? r)) hr
    (fun f hf tried hmisses => hmissing tried (.here hsource hf hmisses))
    (fun f hf stored hstored tried htries => hmissing tried (.onward hsource hf hstored htries))
    hwalk hrest
  rw [← happlying] at hwalk'
  refine ⟨_, objectOf_eq_ok_iff.mpr ⟨r', entries, rest', hafter,
    selectionsEntries_eq_ok_iff.mpr hwalk', rfl, rfl⟩, ?_⟩
  rw [Trace.fieldKeys_append, Trace.fieldKeys_append, hkeys]

theorem itemsOf_kept {item : Shape} (hitem : ShapeKept c changed after item) {r : Record}
    (r' : Record) {field : Field} {items : List FieldValue} {values : List Json} {trace : Trace}
    (h : itemsOf (shapeValue c r field item) items = .ok (values, trace))
    (havoid : trace.Avoids changed)
    (hmissing : ∀ x ∈ items, StillMissing c after item x) :
    ∃ trace', itemsOf (shapeValue { c with source := after } r' field item) items =
        .ok (values, trace') ∧
      trace'.fieldKeys = trace.fieldKeys := by
  induction items generalizing values trace with
  | nil =>
    cases h
    exact ⟨∅, rfl, rfl⟩
  | cons x xs ih =>
    obtain ⟨value, others, first, rest, hvalue, hothers, rfl, rfl⟩ := itemsOf_cons_eq_ok_iff.mp h
    obtain ⟨hfirst, hrest⟩ := Trace.avoids_append.mp havoid
    obtain ⟨hx, hxs⟩ := List.forall_mem_cons.mp hmissing
    obtain ⟨first', hvalue', hkeys⟩ := hitem r' hvalue hfirst hx
    obtain ⟨rest', hothers', hkeys'⟩ := ih hothers hrest hxs
    refine ⟨first' ++ rest', itemsOf_cons_eq_ok_iff.mpr
      ⟨value, others, first', rest', hvalue', hothers', rfl, rfl⟩, ?_⟩
    rw [Trace.fieldKeys_append, Trace.fieldKeys_append, hkeys, hkeys']

theorem shapeKept (hkept : c.source.KeptOutside changed after) (shape : Shape)
    (h : shape.EachSet (TypeLookedUp c)) : ShapeKept c changed after shape := by
  induction shape using Shape.inductionOn with
  | leaf =>
    intro r r' field stored value trace hvalue _ _
    exact ⟨trace, shapeValue_leaf_eq_ok_iff.mpr (shapeValue_leaf_eq_ok_iff.mp hvalue), rfl⟩
  | list item ih =>
    intro r r' field stored value trace hvalue havoid hmissing
    rcases shapeValue_list_eq_ok_iff.mp hvalue with
      hnull | ⟨items, values, rfl, rfl, hitems⟩
    · exact ⟨trace, shapeValue_list_eq_ok_iff.mpr (.inl hnull), rfl⟩
    · obtain ⟨trace', hitems', hkeys⟩ := itemsOf_kept (ih h) r' hitems havoid
        fun x hx tried htries => hmissing tried (.item hx htries)
      exact ⟨trace', shapeValue_list_eq_ok_iff.mpr (.inr ⟨items, values, rfl, rfl, hitems'⟩), hkeys⟩
  | object selections ih =>
    intro r r' field stored value trace hvalue havoid hmissing
    rcases shapeValue_object_eq_ok_iff.mp hvalue with
      hnull | ⟨key, members, rfl, rfl, hmembers⟩
    · exact ⟨trace, shapeValue_object_eq_ok_iff.mpr (.inl hnull), rfl⟩
    · obtain ⟨trace', hmembers', hkeys⟩ := objectOf_kept hkept h.1
        (fun typename f hf => ih typename f hf (h.2.of_applying hf)) hmissing hmembers havoid
      exact ⟨trace', shapeValue_object_eq_ok_iff.mpr (.inr ⟨key, members, rfl, rfl, hmembers'⟩),
        hkeys⟩

end Reading

/-- A read whose report avoids what changed is read again, unless a record is there now for which it
has looked in vain. -/
theorem readData_kept_of_stillMissing {before after : RecordSource} {changed : KeySet}
    (hkept : before.KeptOutside changed after) {resolver : KeyResolver} {vars : Json.Object}
    {selections : List Selection}
    (hselections : (Shape.object selections).EachSet (Reading.TypeLookedUp ⟨before, resolver, vars⟩))
    {root : RecordKey}
    (hmissing : Reading.StillMissing ⟨before, resolver, vars⟩ after (.object selections)
      (.reference root))
    {result : ReadResult} (hread : readData before resolver vars root selections = .ok result)
    (hdisjoint : changed.intersects result.dependentKeys = false) :
    ∃ again, readData after resolver vars root selections = .ok again ∧
      again.data = result.data ∧ again.dependentKeys = result.dependentKeys := by
  obtain ⟨trace, hobject, hkeys, -⟩ := readData_eq_ok_iff.mp hread
  have havoid : trace.Avoids changed := by
    intro k hk hchanged
    have hintersects : changed.intersects result.dependentKeys = true :=
      KeySet.intersects_iff.mpr ⟨k, hchanged, by rwa [hkeys, KeySet.mem_ofList]⟩
    rw [hdisjoint] at hintersects
    cases hintersects
  obtain ⟨trace', hobject', hkeys'⟩ := Reading.objectOf_kept (c := ⟨before, resolver, vars⟩)
    hkept hselections.1
    (fun _ f hf => Reading.shapeKept hkept f.2 (hselections.2.of_applying hf))
    hmissing hobject havoid
  refine ⟨⟨result.data, KeySet.ofList trace'.fieldKeys, Assoc.ofEntries trace'.loaded⟩, ?_, rfl, ?_⟩
  · exact readData_eq_ok_iff.mpr ⟨trace', hobject', rfl, rfl⟩
  · rw [hkeys', ← hkeys]

theorem readData_kept {before after : RecordSource} {changed : KeySet}
    (hkept : before.KeptOutside changed after) {resolver : KeyResolver}
    (hresolver : resolver.NeverRedirects) {selections : List Selection}
    (hselections : (Shape.object selections).EachSet TypenameSelected) {vars : Json.Object}
    {root : RecordKey} {result : ReadResult}
    (hread : readData before resolver vars root selections = .ok result)
    (hdisjoint : changed.intersects result.dependentKeys = false) :
    ∃ again, readData after resolver vars root selections = .ok again ∧
      again.data = result.data ∧ again.dependentKeys = result.dependentKeys := by
  refine readData_kept_of_stillMissing hkept (hselections.imp fun ss hss hfragment => ?_)
    (fun key htries => absurd htries (Reading.not_tries hresolver)) hread hdisjoint
  obtain ⟨field, shape, hmem, hname, harguments⟩ := hss hfragment
  exact ⟨field, shape, hmem, hname, harguments, Reading.target?_eq_none hresolver _⟩

namespace Store

variable {β : Type}

theorem merge_eq_ok (s : Store MemoryContents β) (records : List Record) (directives : Directives) :
    ∃ changed after, s.merge records directives = (.ok changed, after) ∧
      RecordSource.KeptOutside changed s.load? after.load? ∧ after.resolver = s.resolver := by
  rw [merge]
  split
  · exact ⟨∅, s, rfl, fun key r hr => ⟨r, hr, .refl ∅ r⟩, rfl⟩
  · rw [MemoryContents.mergeAll_eq]
    exact ⟨_, _, rfl, fun key r hr => RecordTable.exists_keptOutside_mergeAll hr records, rfl⟩

/-- A merge that changes none of the fields a read depends on leaves the read as it is. The merge
itself always succeeds. -/
theorem readOperation_merge_of_disjoint (s : Store MemoryContents β)
    (hresolver : s.resolver.NeverRedirects) {operation : Operation}
    (hselections : (Shape.object operation.selections).EachSet TypenameSelected)
    {result : ReadResult} (hread : s.readOperation operation = .ok result) (records : List Record)
    (directives : Directives) :
    ∃ changed after, s.merge records directives = (.ok changed, after) ∧
      (changed.intersects result.dependentKeys = false →
        ∃ again, after.readOperation operation = .ok again ∧
          again.data = result.data ∧ again.dependentKeys = result.dependentKeys) := by
  obtain ⟨changed, after, hmerge, hkept, hsame⟩ := s.merge_eq_ok records directives
  refine ⟨changed, after, hmerge, fun hdisjoint => ?_⟩
  rw [readOperation, hsame]
  exact readData_kept hkept hresolver hselections hread hdisjoint

section Hero

/-- Asks for a hero, for the function of a droid only, and for its friends, which may be unknown. -/
private def heroQuery : Operation :=
  { name := "Hero", document := "", id := "hero", selections := [
    .field { responseName := "hero", name := "hero" } (.object [
      .field { responseName := "type", name := "__typename" } .leaf,
      .fragment ["Droid"] [
        .field { responseName := "function", name := "primaryFunction" } .leaf],
      .field { responseName := "friends", name := "friends", nullable := true }
        (.list (.object [.field { responseName := "name", name := "name" } .leaf]))])] }

private def heroStore : Store MemoryContents Unit :=
  { resolver := .byTypeAndId, contents := ⟨[
    (.queryRoot, ⟨.queryRoot, [("hero", .reference ⟨"Droid:2001"⟩)]⟩),
    (⟨"Droid:2001"⟩, ⟨⟨"Droid:2001"⟩, [("__typename", .scalar (.string "Droid")),
      ("primaryFunction", .scalar (.string "Astromech"))]⟩)]⟩ }

/-- A droid gets a name, which the query does not ask for, and another one is stored. -/
private def renamings : List Record :=
  [⟨⟨"Droid:2001"⟩, [("name", .scalar (.string "R2-D2"))]⟩,
   ⟨⟨"Droid:2000"⟩, [("name", .scalar (.string "C-3PO"))]⟩]

theorem readOperation_heroQuery_merge :
    ∃ result changed after, heroStore.readOperation heroQuery = .ok result ∧
      heroStore.merge renamings .none = (.ok changed, after) ∧
      changed.toList = ["Droid:2000.name", "Droid:2001.name"] ∧
      ∃ again, after.readOperation heroQuery = .ok again ∧ again.data = result.data ∧
        again.dependentKeys = result.dependentKeys := by
  obtain ⟨result, hread⟩ : ∃ result, heroStore.readOperation heroQuery = .ok result :=
    exists_eq_ok (by decide)
  have hselections : (Shape.object heroQuery.selections).EachSet TypenameSelected := by
    simp only [heroQuery, Shape.EachSet, SelectionsEachSet, Selection.EachSet, and_true, true_and]
    refine ⟨fun h => ?_, fun _ => ⟨_, _, List.mem_cons_self, rfl, rfl⟩, fun h => ?_⟩
    · cases h
    · cases h
  obtain ⟨changed, after, hmerge, hagain⟩ := heroStore.readOperation_merge_of_disjoint
    KeyResolver.neverRedirects_byTypeAndId hselections hread renamings .none
  have hchanged : changed.toList = ["Droid:2000.name", "Droid:2001.name"] := by
    have h : (heroStore.merge renamings .none).1.toOption.map KeySet.toList =
        some ["Droid:2000.name", "Droid:2001.name"] := by decide
    rw [hmerge] at h
    exact Option.some.inj h
  have hkeys : result.dependentKeys.toList = ["Droid:2001.__typename", "Droid:2001.friends",
      "Droid:2001.primaryFunction", "QUERY_ROOT.hero"] := by
    have h : (heroStore.readOperation heroQuery).toOption.map (·.dependentKeys.toList) =
        some ["Droid:2001.__typename", "Droid:2001.friends", "Droid:2001.primaryFunction",
          "QUERY_ROOT.hero"] := by decide
    rw [hread] at h
    exact Option.some.inj h
  refine ⟨result, changed, after, hread, hmerge, hchanged, hagain ?_⟩
  simp [KeySet.intersects, hchanged, KeySet.mem_def, hkeys]

end Hero

end Store

end GraphClient
