import GraphClient.Proofs.Reading.Merging
import GraphClient.Proofs.Selection.Overlaps

/-!
# Reading selections that overlap

What two lists of selections read from one record is alike: fields at which they overlap are looked up
under one name, so both read one stored value, which decides whether it is read as an object, a list
or a leaf. Reading one list after the other therefore merges the two results.

Objects are merged at every depth, but not in lists. The list that is read later stands alone, so
where both ask for lists of objects, what only the earlier asked of these objects is lost.
-/

namespace GraphClient

open Json (Alike SameKind Agree Within)

namespace Reading

variable {c : Context} {P : Json → Json → Prop} {r r' : Record} {field field' : Field}

/-- A scalar is read as it is stored, whatever the shape. -/
theorem shapeValue_scalar_eq_ok {shape : Shape} {json value : Json} {trace : Trace}
    (h : shapeValue c r field shape (.scalar json) = .ok (value, trace)) : value = json := by
  cases shape with
  | leaf =>
    obtain ⟨heq, -⟩ := shapeValue_leaf_eq_ok_iff.mp h
    exact (FieldValue.scalar.inj heq).symm
  | object selections =>
    obtain ⟨heq, rfl, -⟩ | ⟨key, members, heq, -⟩ := shapeValue_object_eq_ok_iff.mp h
    · exact (FieldValue.scalar.inj heq).symm
    · cases heq
  | list item =>
    obtain ⟨heq, rfl, -⟩ | ⟨items, values, heq, -⟩ := shapeValue_list_eq_ok_iff.mp h
    · exact (FieldValue.scalar.inj heq).symm
    · cases heq

/-- Only an object shape is read from a reference. -/
theorem shapeValue_reference_eq_ok {shape : Shape} {key : RecordKey} {value : Json} {trace : Trace}
    (h : shapeValue c r field shape (.reference key) = .ok (value, trace)) :
    ∃ selections members, shape = .object selections ∧ value = .object members ∧
      objectOf c.source key (fun r => selectionsEntries c r selections) = .ok (members, trace) := by
  cases shape with
  | leaf => cases (shapeValue_leaf_eq_ok_iff.mp h).1
  | object selections =>
    obtain ⟨heq, -⟩ | ⟨target, members, heq, hvalue, hmembers⟩ := shapeValue_object_eq_ok_iff.mp h
    · cases heq
    · cases heq
      exact ⟨selections, members, rfl, hvalue, hmembers⟩
  | list item =>
    obtain ⟨heq, -⟩ | ⟨items, values, heq, -⟩ := shapeValue_list_eq_ok_iff.mp h <;> cases heq

/-- Only a list shape is read from a list. -/
theorem shapeValue_items_eq_ok {shape : Shape} {items : List FieldValue} {value : Json}
    {trace : Trace} (h : shapeValue c r field shape (.list items) = .ok (value, trace)) :
    ∃ item values, shape = .list item ∧ value = .array values ∧
      itemsOf (shapeValue c r field item) items = .ok (values, trace) := by
  cases shape with
  | leaf => cases (shapeValue_leaf_eq_ok_iff.mp h).1
  | object selections =>
    obtain ⟨heq, -⟩ | ⟨target, members, heq, -⟩ := shapeValue_object_eq_ok_iff.mp h <;> cases heq
  | list item =>
    obtain ⟨heq, -⟩ | ⟨stored, values, heq, hvalue, hvalues⟩ := shapeValue_list_eq_ok_iff.mp h
    · cases heq
    · cases heq
      exact ⟨item, values, rfl, hvalue, hvalues⟩

/-- Two ways to read items give the same if they do for each item. -/
theorem itemsOf_unique {item item' : FieldValue → Except ReadError (Json × Trace)}
    (hitem : ∀ {stored value value' trace trace'}, item stored = .ok (value, trace) →
      item' stored = .ok (value', trace') → value = value')
    {items : List FieldValue} {values values' : List Json} {trace trace' : Trace}
    (h : itemsOf item items = .ok (values, trace))
    (h' : itemsOf item' items = .ok (values', trace')) : values = values' := by
  induction items generalizing values values' trace trace' with
  | nil =>
    cases h
    cases h'
    rfl
  | cons x xs ih =>
    obtain ⟨value, others, _, _, hx, hxs, rfl, -⟩ := itemsOf_cons_eq_ok_iff.mp h
    obtain ⟨value', others', _, _, hx', hxs', rfl, -⟩ := itemsOf_cons_eq_ok_iff.mp h'
    rw [hitem hx hx', ih hxs hxs']

/-- Two shapes, of which one asks for no objects, read the same from a stored value. -/
theorem value_eq_of_leaves {shape : Shape} : ∀ {shape' : Shape},
    (shape.selections?.isSome && shape'.selections?.isSome) = false →
    ∀ {stored : FieldValue} {value value' : Json} {trace trace' : Trace},
      shapeValue c r field shape stored = .ok (value, trace) →
      shapeValue c r' field' shape' stored = .ok (value', trace') → value = value' := by
  induction shape using Shape.inductionOn with
  | leaf =>
    intro shape' _ stored value value' trace trace' h h'
    obtain ⟨rfl, -⟩ := shapeValue_leaf_eq_ok_iff.mp h
    exact (shapeValue_scalar_eq_ok h').symm
  | object selections =>
    intro shape' hleaf stored value value' trace trace' h h'
    obtain ⟨rfl, rfl, -⟩ | ⟨key, members, rfl, -⟩ := shapeValue_object_eq_ok_iff.mp h
    · exact (shapeValue_scalar_eq_ok h').symm
    · obtain ⟨others, _, rfl, -⟩ := shapeValue_reference_eq_ok h'
      cases hleaf
  | list item ih =>
    intro shape' hleaf stored value value' trace trace' h h'
    obtain ⟨rfl, rfl, -⟩ | ⟨items, values, rfl, rfl, hitems⟩ := shapeValue_list_eq_ok_iff.mp h
    · exact (shapeValue_scalar_eq_ok h').symm
    · obtain ⟨item', values', rfl, rfl, hitems'⟩ := shapeValue_items_eq_ok h'
      have hleaf' : (item.selections?.isSome && item'.selections?.isSome) = false := hleaf
      rw [itemsOf_unique (fun hx hx' => ih hleaf' hx hx') hitems hitems']

/-- What the two lists of selections read from one record is alike. -/
def ObjectsAlike (P : Json → Json → Prop) (c : Context) (ss others : List Selection) : Prop :=
  ∀ {key members members' trace trace'},
    objectOf c.source key (fun r => selectionsEntries c r ss) = .ok (members, trace) →
    objectOf c.source key (fun r => selectionsEntries c r others) = .ok (members', trace') →
    Alike P (.object members) (.object members')

/-- Two shapes read alike values from a stored value, if their objects are alike and lists of them
need not be. -/
theorem alike_of_shapes (hP : ∀ x, P x x) {shape shape' : Shape}
    (hobjects : ∀ ss others, shape.selections? = some ss → shape'.selections? = some others →
      ObjectsAlike P c ss others)
    (hlists : shape.listsObjects = true → shape'.listsObjects = true → ∀ x y, P x y)
    {stored : FieldValue} {value value' : Json} {trace trace' : Trace}
    (h : shapeValue c r field shape stored = .ok (value, trace))
    (h' : shapeValue c r' field' shape' stored = .ok (value', trace')) : Alike P value value' := by
  cases stored with
  | scalar json =>
    rw [shapeValue_scalar_eq_ok h, shapeValue_scalar_eq_ok h']
    exact .refl hP json
  | reference key =>
    obtain ⟨ss, members, rfl, rfl, hmembers⟩ := shapeValue_reference_eq_ok h
    obtain ⟨others, members', rfl, rfl, hmembers'⟩ := shapeValue_reference_eq_ok h'
    exact hobjects ss others rfl rfl hmembers hmembers'
  | list items =>
    obtain ⟨item, values, rfl, rfl, -⟩ := shapeValue_items_eq_ok h
    obtain ⟨item', values', rfl, rfl, -⟩ := shapeValue_items_eq_ok h'
    cases hleaf : item.selections?.isSome && item'.selections?.isSome with
    | true =>
      obtain ⟨hitem, hitem'⟩ := Bool.and_eq_true_iff.mp hleaf
      exact .other rfl rfl (hlists hitem hitem' _ _)
    | false =>
      have hleaves : ((Shape.list item).selections?.isSome &&
          (Shape.list item').selections?.isSome) = false := hleaf
      rw [value_eq_of_leaves hleaves h h']
      exact .refl hP _

/-- Fields of one name read alike values from a record, if their shapes do. -/
theorem alike_of_fields (hP : ∀ x, P x x) (hc : c.resolver.NeverRedirects)
    {f g : Field × Shape} (hsame : f.1.Same g.1)
    (hobjects : ∀ ss others, f.2.selections? = some ss → g.2.selections? = some others →
      ObjectsAlike P c ss others)
    (hlists : f.2.listsObjects = true → g.2.listsObjects = true → ∀ x y, P x y)
    {value value' : Json} {trace trace' : Trace}
    (h : fieldValue c r f.1 f.2.isObject (shapeValue c r f.1 f.2) = .ok (value, trace))
    (h' : fieldValue c r g.1 g.2.isObject (shapeValue c r g.1 g.2) = .ok (value', trace')) :
    Alike P value value' := by
  rw [fieldValue_eq_storedField hc] at h h'
  have hname := hsame.cacheKey_eq c.vars
  cases hfield : r.field? (f.1.cacheKey c.vars) with
  | some stored =>
    obtain ⟨_, hvalue, -⟩ := (storedField_of_some hfield).mp h
    obtain ⟨_, hvalue', -⟩ := (storedField_of_some (hname ▸ hfield)).mp h'
    exact alike_of_shapes hP hobjects hlists hvalue hvalue'
  | none =>
    obtain ⟨-, rfl, -⟩ := (storedField_of_none hfield).mp h
    obtain ⟨-, rfl, -⟩ := (storedField_of_none (hname ▸ hfield)).mp h'
    exact .refl hP .null

/-- Every entry was read for a field. -/
theorem EntriesOf.exists_of_mem {fs : List (Field × Shape)} {entries : List (String × Json)}
    {trace : Trace} (h : EntriesOf c r fs entries trace) {name : String} {value : Json}
    (hmem : (name, value) ∈ entries) :
    ∃ f ∈ fs, f.1.responseName = name ∧ ∃ first,
      fieldValue c r f.1 f.2.isObject (shapeValue c r f.1 f.2) = .ok (value, first) := by
  induction h with
  | nil => cases hmem
  | @cons field shape fs entries read first rest hvalue _ ih =>
    rcases List.mem_cons.mp hmem with heq | hmem
    · cases heq
      exact ⟨(field, shape), List.mem_cons_self, rfl, first, hvalue⟩
    · obtain ⟨f, hf, hread⟩ := ih hmem
      exact ⟨f, List.mem_cons_of_mem _ hf, hread⟩

/-- Entries of one name are alike, if what is inside the fields that they were read for is. -/
theorem alike_of_mem_entries (hP : ∀ x, P x x) (hc : c.resolver.NeverRedirects)
    {fs gs : List (Field × Shape)} {entries others : List (String × Json)} {trace trace' : Trace}
    (h : EntriesOf c r fs entries trace) (h' : EntriesOf c r gs others trace')
    (hfields : ∀ f ∈ fs, ∀ g ∈ gs, f.1.responseName = g.1.responseName → f.1.Same g.1 ∧
      (∀ inner innerOthers, f.2.selections? = some inner → g.2.selections? = some innerOthers →
        ObjectsAlike P c inner innerOthers) ∧
      (f.2.listsObjects = true → g.2.listsObjects = true → ∀ x y, P x y))
    {name : String} {v w : Json} (hv : (name, v) ∈ entries) (hw : (name, w) ∈ others) :
    Alike P v w := by
  obtain ⟨f, hf, hname, _, hvalue⟩ := h.exists_of_mem hv
  obtain ⟨g, hg, hname', _, hvalue'⟩ := h'.exists_of_mem hw
  obtain ⟨hsame, hobjects, hlists⟩ := hfields f hf g hg (hname.trans hname'.symm)
  exact alike_of_fields hP hc hsame hobjects hlists hvalue hvalue'

theorem wellFormed_entries (hsource : c.source.WellFormed) {key : RecordKey}
    (hr : c.source key = some r) {fs : List (Field × Shape)} {entries : List (String × Json)}
    {trace : Trace} (h : EntriesOf c r fs entries trace) : Json.WellFormedMembers entries :=
  h.wellFormed (hsource key r hr) fun f _ => readsWellFormed hsource f.2

/-- Overlapping selections read alike objects from one record. -/
theorem objectsAlike (hP : ∀ x, P x x) (hsymm : ∀ x y, P x y → P y x)
    (hc : c.resolver.NeverRedirects) (hsource : c.source.WellFormed)
    {ss others : List Selection} (h : EachOverlap (fun f g => f.1.Same g.1 ∧
      (f.2.listsObjects = true → g.2.listsObjects = true → ∀ x y, P x y)) ss others) :
    ObjectsAlike P c ss others := by
  induction h with
  | intro fields _ ih =>
    intro key members members' trace trace' hmembers hmembers'
    obtain ⟨r, entries, _, hr, hentries, rfl, -⟩ := objectOf_eq_ok_iff.mp hmembers
    obtain ⟨r', entries', _, hr', hentries', rfl, -⟩ := objectOf_eq_ok_iff.mp hmembers'
    obtain rfl : r = r' := Option.some.inj (hr.symm.trans hr')
    have hwalk := selectionsEntries_eq_ok_iff.mp hentries
    have hwalk' := selectionsEntries_eq_ok_iff.mp hentries'
    refine .of_entries hsymm (wellFormed_entries hsource hr hwalk)
      (wellFormed_entries hsource hr hwalk') fun name v w => ?_
    refine alike_of_mem_entries hP hc hwalk hwalk' fun f hf g hg hname => ?_
    have hrelated := fields hf hg hname
    exact ⟨hrelated.1, fun _ _ => ih hf hg hname, hrelated.2⟩

/-- Entries of one name that overlapping selections read are of one kind. -/
theorem sameKind_of_mem_entries (hc : c.resolver.NeverRedirects) (hsource : c.source.WellFormed)
    {ss : List Selection} (h : EachOverlap (fun f g => f.1.Same g.1) ss ss)
    {typename : Option String} {entries : List (String × Json)} {trace : Trace}
    (hwalk : EntriesOf c r (selectionsApplying typename ss) entries trace) {name : String}
    {v w : Json} (hv : (name, v) ∈ entries) (hw : (name, w) ∈ entries) : SameKind v w := by
  obtain ⟨fields, inside⟩ := h
  refine alike_of_mem_entries (fun _ => trivial) hc hwalk hwalk (fun f hf g hg hname => ?_) hv hw
  refine ⟨fields hf hg hname, fun inner innerOthers hinner hothers => ?_, fun _ _ _ _ => trivial⟩
  exact objectsAlike (fun _ => trivial) (fun _ _ _ => trivial) hc hsource
    ((inside hf hg hname hinner hothers).mono fun hsame => ⟨hsame, fun _ _ _ _ => trivial⟩)

/-- The object that both lists read of a record is what they read of it alone, merged. -/
theorem objectOf_append (hc : c.resolver.NeverRedirects) (hsource : c.source.WellFormed)
    {ss others : List Selection} (hothers : EachOverlap (fun f g => f.1.Same g.1) others others)
    {key : RecordKey} {members members' : Json.Object} {trace trace' : Trace}
    (h : objectOf c.source key (fun r => selectionsEntries c r ss) = .ok (members, trace))
    (h' : objectOf c.source key (fun r => selectionsEntries c r others) = .ok (members', trace')) :
    ∃ both, objectOf c.source key (fun r => selectionsEntries c r (ss ++ others)) =
      .ok (Json.mergeMembers members members', both) := by
  obtain ⟨r, entries, rest, hr, hentries, rfl, -⟩ := objectOf_eq_ok_iff.mp h
  obtain ⟨r', entries', rest', hr', hentries', rfl, -⟩ := objectOf_eq_ok_iff.mp h'
  obtain rfl : r = r' := Option.some.inj (hr.symm.trans hr')
  have hwalk := selectionsEntries_eq_ok_iff.mp hentries
  have hwalk' := selectionsEntries_eq_ok_iff.mp hentries'
  have hboth := hwalk.append hwalk'
  rw [← selectionsApplying_append] at hboth
  have hmerged := Json.mergeMembers_nil_append (wellFormed_entries hsource hr hwalk)
    (wellFormed_entries hsource hr hwalk') (List.pairwise_of_forall_mem_list
      fun v hv w hw hname => sameKind_of_mem_entries hc hsource hothers hwalk' hv (hname ▸ hw))
  exact ⟨_, objectOf_eq_ok_iff.mpr
    ⟨r, _, _, hr, selectionsEntries_eq_ok_iff.mpr hboth, hmerged.symm, rfl⟩⟩

end Reading

/-- Reading one list of selections after the other merges what they read, down to lists of objects at
which they overlap. Nothing that one of them has read is missing. -/
theorem readData_append {source : RecordSource} (hsource : source.WellFormed)
    {resolver : KeyResolver} (hresolver : resolver.NeverRedirects) {vars : Json.Object}
    {root : RecordKey} {ss others : List Selection}
    (hsame : EachOverlap (fun f g => f.1.Same g.1) (ss ++ others) (ss ++ others))
    (hlists : EachOverlap (fun f g => (f.2.listsObjects && g.2.listsObjects) = false) ss others)
    {first second : ReadResult} (hfirst : readData source resolver vars root ss = .ok first)
    (hsecond : readData source resolver vars root others = .ok second) :
    ∃ both, readData source resolver vars root (ss ++ others) = .ok both ∧
      .object both.data = (Json.object first.data).deepMerge (.object second.data) ∧
      Within (.object first.data) (.object both.data) ∧
      Within (.object second.data) (.object both.data) := by
  let c : Reading.Context := ⟨source, resolver, vars⟩
  obtain ⟨hbetween, hothers⟩ := hsame.of_append
  obtain ⟨trace, hobject, -⟩ := readData_eq_ok_iff.mp hfirst
  obtain ⟨trace', hobject', -⟩ := readData_eq_ok_iff.mp hsecond
  have hagree : Agree (.object first.data) (.object second.data) := by
    refine Reading.objectsAlike (c := c) (fun _ => rfl) (fun _ _ => Eq.symm) hresolver hsource
      ((hbetween.and hlists).mono fun h => ⟨h.1, fun hf hg => ?_⟩) hobject hobject'
    rw [hf, hg] at h
    cases h.2
  obtain ⟨both, hboth⟩ :=
    Reading.objectOf_append (c := c) hresolver hsource hothers hobject hobject'
  have hwell := wellFormed_readData hsource hfirst
  have hwell' := wellFormed_readData hsource hsecond
  refine ⟨⟨_, _, _⟩, readData_eq_ok_iff.mpr ⟨both, hboth, rfl, rfl⟩, ?_, ?_, ?_⟩
  · exact (Json.deepMerge_eq_merge hagree hwell hwell').symm
  · exact Json.within_merge_left hagree hwell'
  · exact Json.within_merge_right hagree hwell'

section Hero

private def plainField (name : String) (shape : Shape) : Selection :=
  .field { responseName := name, name := name } shape

private def ofHero (selections : List Selection) : List Selection :=
  [plainField "hero" (.object selections)]

private def heroTable : RecordTable := [
  (.queryRoot, ⟨.queryRoot, [("hero", .reference ⟨"Droid:2001"⟩)]⟩),
  (⟨"Droid:2001"⟩, ⟨⟨"Droid:2001"⟩, [("name", .scalar (.string "R2-D2")),
    ("appearsIn", .list [.scalar (.string "JEDI")]),
    ("friends", .list [.reference ⟨"Human:1000"⟩])]⟩),
  (⟨"Human:1000"⟩, ⟨⟨"Human:1000"⟩, [("id", .scalar (.string "1000")),
    ("name", .scalar (.string "Luke Skywalker"))]⟩)]

private def friendsWith (name : String) : Selection :=
  plainField "friends" (.list (.object [plainField name .leaf]))

private def appearances : Selection := plainField "appearsIn" (.list .leaf)

private theorem wellFormed_heroTable : RecordSource.WellFormed (Assoc.get? heroTable) := by
  have hrecords : ∀ entry ∈ heroTable, (Assoc.keys entry.2.fields).Nodup ∧
      ∀ f ∈ entry.2.fields, f.2.WellFormed := by
    simp only [heroTable, List.forall_mem_cons, FieldValue.WellFormed, FieldValue.WellFormedItems,
      Json.WellFormed, and_true, List.not_mem_nil, false_implies, implies_true]
    decide
  intro key r h
  obtain ⟨hnodup, hvalues⟩ := hrecords _ (Assoc.mem_of_get?_eq_some h)
  exact ⟨hnodup, fun name value hvalue => hvalues _ (Assoc.mem_of_get?_eq_some hvalue)⟩

private theorem same_of_hero {selections others : List Selection}
    (h : (Shape.object (ofHero selections ++ ofHero others)).EachSet Unaliased) :
    EachOverlap (fun f g => f.1.Same g.1) (ofHero selections ++ ofHero others)
      (ofHero selections ++ ofHero others) :=
  eachOverlap_same_of_unaliased h h rfl rfl

/-- The hero is asked for twice, both times with the films that it appears in. -/
theorem readData_append_hero :
    let ss := ofHero [appearances, friendsWith "id"]
    let others := ofHero [appearances, plainField "name" .leaf]
    RecordSource.WellFormed (Assoc.get? heroTable) ∧ KeyResolver.byTypeAndId.NeverRedirects ∧
      EachOverlap (fun f g => f.1.Same g.1) (ss ++ others) (ss ++ others) ∧
      EachOverlap (fun f g => (f.2.listsObjects && g.2.listsObjects) = false) ss others ∧
      ∃ first second both,
        readData (Assoc.get? heroTable) .byTypeAndId [] .queryRoot ss = .ok first ∧
        readData (Assoc.get? heroTable) .byTypeAndId [] .queryRoot others = .ok second ∧
        readData (Assoc.get? heroTable) .byTypeAndId [] .queryRoot (ss ++ others) = .ok both ∧
        .object both.data = (Json.object first.data).deepMerge (.object second.data) ∧
        Within (.object first.data) (.object both.data) ∧
        Within (.object second.data) (.object both.data) := by
  intro ss others
  have hsame : EachOverlap (fun f g => f.1.Same g.1) (ss ++ others) (ss ++ others) := by
    refine same_of_hero ?_
    simp [ofHero, appearances, friendsWith, plainField, Shape.EachSet, SelectionsEachSet,
      Selection.EachSet, Unaliased, selectionsApplying, Selection.applying]
  have hinner : EachOverlap (fun f g => (f.2.listsObjects && g.2.listsObjects) = false)
      [appearances, friendsWith "id"] [appearances, plainField "name" .leaf] := by
    -- the later selections of the hero ask for no objects
    have hleaves : ∀ {typename g},
        g ∈ selectionsApplying typename [appearances, plainField "name" .leaf] →
          g.2.selections? = none ∧ g.2.listsObjects = false := by
      simp [appearances, plainField, selectionsApplying, Selection.applying, Shape.selections?,
        Shape.listsObjects]
    refine .intro (fun _ hg _ => ?_) fun _ hg _ _ hothers => ?_
    · rw [(hleaves hg).2, Bool.and_false]
    · rw [(hleaves hg).1] at hothers
      cases hothers
  have hlists : EachOverlap (fun f g => (f.2.listsObjects && g.2.listsObjects) = false) ss
      others := by
    refine .intro (fun hf hg _ => ?_) fun hf hg _ hss hothers => ?_
    all_goals
      simp only [ss, others, ofHero, plainField, selectionsApplying, Selection.applying,
        List.append_nil, List.mem_singleton] at hf hg
      subst hf hg
    · rfl
    · cases hss
      cases hothers
      exact hinner
  obtain ⟨first, hfirst⟩ : ∃ first,
      readData (Assoc.get? heroTable) .byTypeAndId [] .queryRoot ss = .ok first := ⟨_, rfl⟩
  obtain ⟨second, hsecond⟩ : ∃ second,
      readData (Assoc.get? heroTable) .byTypeAndId [] .queryRoot others = .ok second := ⟨_, rfl⟩
  obtain ⟨both, hboth, hmerged⟩ := readData_append wellFormed_heroTable
    KeyResolver.neverRedirects_byTypeAndId hsame hlists hfirst hsecond
  exact ⟨wellFormed_heroTable, KeyResolver.neverRedirects_byTypeAndId, hsame, hlists, first, second,
    both, hfirst, hsecond, hboth, hmerged⟩

/-- Of the friends only what is asked of them last is read. -/
theorem readData_append_ne_deepMerge :
    let ss := ofHero [friendsWith "id"]
    let others := ofHero [friendsWith "name"]
    RecordSource.WellFormed (Assoc.get? heroTable) ∧ KeyResolver.byTypeAndId.NeverRedirects ∧
      EachOverlap (fun f g => f.1.Same g.1) (ss ++ others) (ss ++ others) ∧
      ∃ first second both,
        readData (Assoc.get? heroTable) .byTypeAndId [] .queryRoot ss = .ok first ∧
        readData (Assoc.get? heroTable) .byTypeAndId [] .queryRoot others = .ok second ∧
        readData (Assoc.get? heroTable) .byTypeAndId [] .queryRoot (ss ++ others) = .ok both ∧
        both.data = second.data ∧
        .object both.data ≠ (Json.object first.data).deepMerge (.object second.data) := by
  refine ⟨wellFormed_heroTable, KeyResolver.neverRedirects_byTypeAndId, same_of_hero ?_,
    _, _, _, rfl, rfl, rfl, rfl, ?_⟩
  · simp [ofHero, friendsWith, plainField, Shape.EachSet, SelectionsEachSet, Selection.EachSet,
      Unaliased, selectionsApplying, Selection.applying]
  · have hread : Json.object [("hero", .object [("friends", .array [
        .object [("name", .string "Luke Skywalker")]])])] ≠
        .object [("hero", .object [("friends", .array [
          .object [("id", .string "1000"), ("name", .string "Luke Skywalker")]])])] := by simp
    exact hread

end Hero

end GraphClient
