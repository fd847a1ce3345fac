import GraphClient.Operation
import GraphClient.Proofs.Normalization.Listing
import GraphClient.Proofs.Normalization.Paths

/-!
# Objects that share a record

Under the resolver by type and `id`, an object is stored under the key of its identity, or under the
path from the object that holds it. Both kinds of keys are texts of one kind, so objects may share a
record in three ways: they have one identity, they stand at one place of one record, or the `id` of
the one is written like the path of the other (`Identity.NamesPath`). There is no fourth way, and the
root shares its record with no object (`key_eq_iff_of_leadsBy`).

A path starts at the root or at an object with an identity. The name of the root is followed by a
point and the type of an identity by a colon, and that tells the two apart.
-/

namespace GraphClient

namespace RecordKey

/-- The key of an entity. -/
def ofEntity (typename id : String) : RecordKey := ⟨typename ++ ":" ++ id⟩

theorem toList_ofEntity (typename id : String) :
    (ofEntity typename id).text.toList = typename.toList ++ ':' :: id.toList := by
  simp [ofEntity]

theorem ofEntity_inj {typename typename' id id' : String} (h : isName typename = true)
    (h' : isName typename' = true) (heq : ofEntity typename id = ofEntity typename' id') :
    typename = typename' ∧ id = id' := by
  have heq := congrArg (fun key => key.text.toList) heq
  simp only [toList_ofEntity] at heq
  obtain ⟨htypename, -, hid⟩ := append_cons_inj_of_isNameChar (isNameChar_of_mem h)
    (isNameChar_of_mem h') (by decide) (by decide) heq
  exact ⟨String.toList_inj.mp htypename, String.toList_inj.mp hid⟩

/-- What is walked from the key of an entity could be the key of another entity of the type. -/
theorem walk_ofEntity (typename id : String) (steps : List Step) :
    (ofEntity typename id).walk steps = ofEntity typename (walk ⟨id⟩ steps).text := by
  induction steps generalizing id with
  | nil => rfl
  | cons s steps ih =>
    have hchild : (ofEntity typename id).child s.text = ofEntity typename (child ⟨id⟩ s.text).text := by
      simp [ofEntity, child, fieldKey, String.append_assoc]
    rw [walk_cons, hchild, ih, walk_cons]

/-- Behind a key that is walked from stands a point. -/
theorem exists_toList_walk (key : RecordKey) (s : Step) (steps : List Step) :
    ∃ rest, (key.walk (s :: steps)).text.toList = key.text.toList ++ '.' :: rest := by
  induction steps generalizing key s with
  | nil => exact ⟨s.text.toList, key.toList_fieldKey s.text⟩
  | cons t steps ih =>
    obtain ⟨rest, hrest⟩ := ih (key.child s.text) t
    refine ⟨s.text.toList ++ '.' :: rest, ?_⟩
    rw [walk_cons, hrest, child, toList_fieldKey, List.append_assoc, List.cons_append]

theorem ofEntity_ne_walk {typename : String} (h : isName typename = true) (id : String)
    {root : RecordKey} (hroot : isName root.text = true) (steps : List Step) :
    ofEntity typename id ≠ root.walk steps := by
  intro heq
  have heq := congrArg (fun key => key.text.toList) heq
  simp only [toList_ofEntity] at heq
  cases steps with
  | nil =>
    have hcolon : ':' ∈ root.text.toList := by
      rw [← root.walk_nil, ← heq]
      simp
    cases isNameChar_of_mem hroot _ hcolon
  | cons s steps =>
    obtain ⟨rest, hrest⟩ := root.exists_toList_walk s steps
    rw [hrest] at heq
    obtain ⟨-, hpoint, -⟩ := append_cons_inj_of_isNameChar (isNameChar_of_mem h)
      (isNameChar_of_mem hroot) (by decide) (by decide) heq
    cases hpoint

theorem walk_cons_ne {root : RecordKey} (hroot : isName root.text = true) (key : RecordKey)
    (s : Step) (steps : List Step) : key.walk (s :: steps) ≠ root := by
  rintro rfl
  obtain ⟨rest, hrest⟩ := key.exists_toList_walk s steps
  have hpoint : '.' ∈ (key.walk (s :: steps)).text.toList := by
    rw [hrest]
    simp
  cases isNameChar_of_mem hroot _ hpoint

end RecordKey

namespace KeyResolver

/-- What an object is identified by: its type and the key fragment of its `id`. -/
def identity? (object : Json.Object) : Option (String × String) := do
  let typename ← Json.typename? object
  let id ← Assoc.get? object "id"
  let fragment ← id.keyFragment?
  pure (typename, fragment)

theorem typeAndId?_eq (object : Json.Object) :
    typeAndId? object = (identity? object).map fun i => .ofEntity i.1 i.2 := by
  rw [typeAndId?, identity?]
  cases Json.typename? object with
  | none => rfl
  | some typename =>
    cases Assoc.get? object "id" with
    | none => rfl
    | some id => cases hfragment : id.keyFragment? <;> simp [hfragment, RecordKey.ofEntity]

end KeyResolver

theorem isName_rootKey (operation : Operation) : isName operation.rootKey.text = true := by
  rw [Operation.rootKey]
  cases operation.kind <;> decide

namespace Normalization

open KeyResolver RecordKey

variable {vars : Json.Object} {root : Visit}

/-- The `id` of the one object is written like a path: the `id` of an object of its type, and the
steps from there to the other object, which has no identity. -/
structure NamesPath (vars : Json.Object) (root u : Visit) (typename id : String)
    (steps : List Step) (x y : Visit) : Prop where
  reached : Reaches ⟨.byTypeAndId, vars⟩ root u
  identified : identity? u.object = some (typename, id)
  stored : u.key = ofEntity typename id
  way : ReachesBy ⟨.byTypeAndId, vars⟩ u steps y
  unidentified : identity? y.object = none
  walked : y.key = u.key.walk steps
  named : identity? x.object = some (typename, (walk ⟨id⟩ steps).text)

section Leading

variable {v w : Visit} {steps : List Step}

theorem LeadsBy.key_eq (h : LeadsBy ⟨.byTypeAndId, vars⟩ v steps w) :
    w.key = ((identity? w.object).map fun i => ofEntity i.1 i.2).getD (v.key.walk steps) := by
  obtain ⟨f, -, -, -, -, -, -, hkey⟩ := h
  rw [← typeAndId?_eq]
  exact hkey

theorem LeadsBy.key_of_identity (h : LeadsBy ⟨.byTypeAndId, vars⟩ v steps w)
    {typename id : String} (hw : identity? w.object = some (typename, id)) :
    w.key = ofEntity typename id := by
  rw [h.key_eq, hw]
  rfl

theorem LeadsBy.key_of_no_identity (h : LeadsBy ⟨.byTypeAndId, vars⟩ v steps w)
    (hw : identity? w.object = none) : w.key = v.key.walk steps := by
  rw [h.key_eq, hw]
  rfl

/-- The steps to the next object are a field and indices of items. -/
theorem LeadsBy.exists_eq {c : Context} (h : LeadsBy c v steps w) :
    ∃ name, ∃ indices : List Nat, steps = .field name :: indices.map .item := by
  obtain ⟨f, -, -, indices, -, -, hsteps, -⟩ := h
  exact ⟨_, indices, hsteps⟩

/-- The steps to the next object do not go on with the steps to one after it. -/
theorem LeadsBy.eq_nil_of_append {c : Context} (h : LeadsBy c v steps w) {x y : Visit}
    {before after : List Step} (hafter : LeadsBy c x after y) (heq : steps = before ++ after) :
    before = [] := by
  obtain ⟨name, indices, rfl⟩ := h.exists_eq
  obtain ⟨name', indices', rfl⟩ := hafter.exists_eq
  cases before with
  | nil => rfl
  | cons s before =>
    obtain ⟨-, hitems⟩ := List.cons.inj heq
    have hfield : Step.field name' ∈ indices.map Step.item := by
      rw [hitems]
      simp
    obtain ⟨index, -, hindex⟩ := List.mem_map.mp hfield
    cases hindex

end Leading

/-- A path starts at the root or at an object with an identity. -/
theorem ReachesBy.key_cases {v : Visit} {steps : List Step}
    (h : ReachesBy ⟨.byTypeAndId, vars⟩ root steps v) :
    v.key = root.key.walk steps ∨
      ∃ u typename id before after, ReachesBy ⟨.byTypeAndId, vars⟩ root before u ∧
        identity? u.object = some (typename, id) ∧ u.key = ofEntity typename id ∧
        ReachesBy ⟨.byTypeAndId, vars⟩ u after v ∧ v.key = u.key.walk after := by
  induction h with
  | refl => exact .inl rfl
  | @tail v w steps more hreaches hlead ih =>
    cases hidentity : identity? w.object with
    | some i =>
      exact .inr ⟨w, i.1, i.2, steps ++ more, [], hreaches.tail hlead, hidentity,
        hlead.key_of_identity hidentity, .refl w, rfl⟩
    | none =>
      have hkey := hlead.key_of_no_identity hidentity
      rcases ih with hwalk | ⟨u, typename, id, before, after, hbefore, hu, hukey, hafter, hwalk⟩
      · exact .inl (by rw [hkey, hwalk, walk_append])
      · refine .inr ⟨u, typename, id, before, after ++ more, hbefore, hu, hukey,
          hafter.tail hlead, ?_⟩
        rw [hkey, hwalk, walk_append]

theorem NamesPath.key_eq {u x y v : Visit} {typename id : String} {steps p : List Step}
    (h : NamesPath vars root u typename id steps x y)
    (hx : LeadsBy ⟨.byTypeAndId, vars⟩ v p x) : x.key = y.key := by
  rw [hx.key_of_identity h.named, h.walked, h.stored, walk_ofEntity]

section Sharing

variable (hroot : isName root.key.text = true) (hnamed : selectionsNamed root.selections = true)
  (htypes : ∀ v, Reaches ⟨.byTypeAndId, vars⟩ root v →
    ∀ typename, Json.typename? v.object = some typename → isName typename = true)

include htypes in
theorem isName_of_identity {v : Visit} (hv : Reaches ⟨.byTypeAndId, vars⟩ root v)
    {typename id : String} (h : identity? v.object = some (typename, id)) :
    isName typename = true := by
  obtain ⟨found, hfound, hrest⟩ := Option.bind_eq_some_iff.mp h
  obtain ⟨value, -, hrest⟩ := Option.bind_eq_some_iff.mp hrest
  obtain ⟨fragment, -, hpair⟩ := Option.bind_eq_some_iff.mp hrest
  cases hpair
  exact htypes v hv _ hfound

include hroot htypes in
theorem LeadsBy.key_ne_root {v w : Visit} {steps : List Step} (hv : Reaches ⟨.byTypeAndId, vars⟩ root v)
    (h : LeadsBy ⟨.byTypeAndId, vars⟩ v steps w) : w.key ≠ root.key := by
  cases hidentity : identity? w.object with
  | some i =>
    have hw : Reaches ⟨.byTypeAndId, vars⟩ root w := hv.tail (leads_iff.mpr ⟨steps, h⟩)
    rw [h.key_of_identity hidentity]
    exact ofEntity_ne_walk (isName_of_identity htypes hw hidentity) i.2 hroot []
  | none =>
    obtain ⟨name, indices, rfl⟩ := h.exists_eq
    rw [h.key_of_no_identity hidentity]
    exact walk_cons_ne hroot v.key _ _

include hroot htypes in
/-- The key of an identity is that of a path only if the `id` is written like the path. -/
theorem exists_namesPath {w x y : Visit} (hx : Reaches ⟨.byTypeAndId, vars⟩ root x)
    {typename id : String} (hxi : identity? x.object = some (typename, id))
    (hw : Reaches ⟨.byTypeAndId, vars⟩ root w) {q : List Step}
    (hy : LeadsBy ⟨.byTypeAndId, vars⟩ w q y) (hyi : identity? y.object = none)
    (hkey : ofEntity typename id = y.key) :
    ∃ u typename id steps, NamesPath vars root u typename id steps x y := by
  have hname := isName_of_identity htypes hx hxi
  obtain ⟨steps, hsteps⟩ := reaches_iff.mp hw
  rcases (hsteps.tail hy).key_cases with hwalk |
    ⟨u, typename', id', before, after, hbefore, hu, hukey, hafter, hwalk⟩
  · exact absurd (hkey.trans hwalk) (ofEntity_ne_walk hname id hroot _)
  · have hreached := reaches_iff.mpr ⟨before, hbefore⟩
    have hsame := hkey.trans hwalk
    rw [hukey, walk_ofEntity] at hsame
    obtain ⟨rfl, rfl⟩ := ofEntity_inj hname (isName_of_identity htypes hreached hu) hsame
    exact ⟨u, typename, id', after, hreached, hu, hukey, hafter, hyi, hwalk, hxi⟩

include hroot hnamed htypes in
/-- The three ways in which two objects share a record. -/
theorem key_eq_iff {v w x y : Visit} {p q : List Step}
    (hv : Reaches ⟨.byTypeAndId, vars⟩ root v) (hw : Reaches ⟨.byTypeAndId, vars⟩ root w)
    (hx : LeadsBy ⟨.byTypeAndId, vars⟩ v p x) (hy : LeadsBy ⟨.byTypeAndId, vars⟩ w q y) :
    x.key = y.key ↔
      (∃ i, identity? x.object = some i ∧ identity? y.object = some i) ∨
      (identity? x.object = none ∧ identity? y.object = none ∧ v.key = w.key ∧ p = q) ∨
      (∃ u typename id steps, NamesPath vars root u typename id steps x y) ∨
      ∃ u typename id steps, NamesPath vars root u typename id steps y x := by
  have hxr : Reaches ⟨.byTypeAndId, vars⟩ root x := hv.tail (leads_iff.mpr ⟨p, hx⟩)
  have hyr : Reaches ⟨.byTypeAndId, vars⟩ root y := hw.tail (leads_iff.mpr ⟨q, hy⟩)
  constructor
  · intro h
    cases hxi : identity? x.object with
    | some i =>
      obtain ⟨typename, id⟩ := i
      rw [hx.key_of_identity hxi] at h
      cases hyi : identity? y.object with
      | some j =>
        obtain ⟨typename', id'⟩ := j
        rw [hy.key_of_identity hyi] at h
        obtain ⟨rfl, rfl⟩ := ofEntity_inj (isName_of_identity htypes hxr hxi)
          (isName_of_identity htypes hyr hyi) h
        exact .inl ⟨_, rfl, rfl⟩
      | none =>
        exact .inr (.inr (.inl (exists_namesPath hroot htypes hxr hxi hw hy hyi h)))
    | none =>
      cases hyi : identity? y.object with
      | some j =>
        rw [hy.key_of_identity hyi] at h
        exact .inr (.inr (.inr (exists_namesPath hroot htypes hyr hyi hv hx hxi h.symm)))
      | none =>
        rw [hx.key_of_no_identity hxi, hy.key_of_no_identity hyi] at h
        have hp := (hx.isNamed (hv.isNamed hnamed)).2
        have hq := (hy.isNamed (hw.isNamed hnamed)).2
        refine .inr (.inl ⟨rfl, rfl, ?_⟩)
        rcases walk_eq_walk hp hq h with ⟨before, heq, hbefore⟩ | ⟨before, heq, hbefore⟩
        · obtain rfl := hx.eq_nil_of_append hy heq
          exact ⟨hbefore, heq⟩
        · obtain rfl := hy.eq_nil_of_append hx heq
          exact ⟨hbefore.symm, heq.symm⟩
  · rintro (⟨i, hxi, hyi⟩ | ⟨hxi, hyi, hparent, rfl⟩ | ⟨u, typename, id, steps, h⟩ |
      ⟨u, typename, id, steps, h⟩)
    · rw [hx.key_of_identity hxi, hy.key_of_identity hyi]
    · rw [hx.key_of_no_identity hxi, hy.key_of_no_identity hyi, hparent]
    · exact h.key_eq hx
    · exact (h.key_eq hy).symm

end Sharing

/-- What shares a record in the data of an operation: objects of one identity, objects without an
identity at one place of one record, and an object of which the `id` is written like the path of an
object without an identity. The root shares its record with none of them. -/
theorem sharesRecord_iff (operation : Operation) (data : Json.Object)
    (hnamed : selectionsNamed operation.selections = true)
    (htypes : ∀ v, Reaches ⟨.byTypeAndId, operation.vars⟩
        ⟨operation.rootKey, operation.selections, data⟩ v →
      ∀ typename, Json.typename? v.object = some typename → isName typename = true) :
    let c : Context := ⟨.byTypeAndId, operation.vars⟩
    let root : Visit := ⟨operation.rootKey, operation.selections, data⟩
    (∀ v x p, Reaches c root v → LeadsBy c v p x → x.key ≠ root.key) ∧
    ∀ v w x y p q, Reaches c root v → Reaches c root w → LeadsBy c v p x → LeadsBy c w q y →
      (x.key = y.key ↔
        (∃ i, identity? x.object = some i ∧ identity? y.object = some i) ∨
        (identity? x.object = none ∧ identity? y.object = none ∧ v.key = w.key ∧ p = q) ∨
        (∃ u typename id steps, NamesPath operation.vars root u typename id steps x y) ∨
        ∃ u typename id steps, NamesPath operation.vars root u typename id steps y x) := by
  intro c root
  have hroot : isName root.key.text = true := isName_rootKey operation
  exact ⟨fun v x p hv hx => hx.key_ne_root hroot htypes hv,
    fun v w x y p q hv hw hx hy => key_eq_iff hroot hnamed htypes hv hw hx hy⟩

section Pair

private def pairField (name : String) : Field := { responseName := name, name := name }

private def ownerSelections : List Selection :=
  [.field (pairField "__typename") .leaf, .field (pairField "id") .leaf,
    .field (pairField "friend") (.object [.field (pairField "name") .leaf])]

private def namedSelections : List Selection :=
  [.field (pairField "__typename") .leaf, .field (pairField "id") .leaf,
    .field (pairField "name") .leaf]

private def pairQuery : Operation :=
  { name := "Pair", document := "", id := "pair",
    selections := [.field (pairField "a") (.object ownerSelections),
      .field (pairField "b") (.object namedSelections)] }

private def ownerObject : Json.Object :=
  [("__typename", .string "Droid"), ("id", .string "1"),
    ("friend", .object [("name", .string "Leia")])]

/-- A droid with an `id` that looks like the path of the friend of another droid. -/
private def namedObject : Json.Object :=
  [("__typename", .string "Droid"), ("id", .string "1.friend"), ("name", .string "R2-D2")]

private def pairData : Json.Object := [("a", .object ownerObject), ("b", .object namedObject)]

private def pairRoot : Visit := ⟨.queryRoot, pairQuery.selections, pairData⟩

private def ownerVisit : Visit := ⟨⟨"Droid:1"⟩, ownerSelections, ownerObject⟩

private def friendVisit : Visit :=
  ⟨⟨"Droid:1.friend"⟩, [.field (pairField "name") .leaf], [("name", .string "Leia")]⟩

private def namedVisit : Visit := ⟨⟨"Droid:1.friend"⟩, namedSelections, namedObject⟩

private theorem leads_ownerVisit :
    LeadsBy ⟨.byTypeAndId, []⟩ pairRoot [.field "a"] ownerVisit :=
  ⟨_, List.mem_cons_self, _, [], rfl, .object, rfl, by decide⟩

private theorem leads_namedVisit :
    LeadsBy ⟨.byTypeAndId, []⟩ pairRoot [.field "b"] namedVisit :=
  ⟨_, List.mem_cons_of_mem _ List.mem_cons_self, _, [], rfl, .object, rfl, by decide⟩

private theorem leads_friendVisit :
    LeadsBy ⟨.byTypeAndId, []⟩ ownerVisit [.field "friend"] friendVisit :=
  ⟨_, List.mem_cons_of_mem _ (List.mem_cons_of_mem _ List.mem_cons_self), _, [], rfl, .object,
    rfl, by decide⟩

private theorem isName_typename_pair (v : Visit) (hv : Reaches ⟨.byTypeAndId, []⟩ pairRoot v)
    (typename : String) (h : Json.typename? v.object = some typename) :
    isName typename = true := by
  have hall : (pairRoot.all ⟨.byTypeAndId, []⟩).all
      (fun v => (Json.typename? v.object).all isName) = true := by decide
  have := List.all_eq_true.mp hall v (Visit.mem_all_iff.mpr hv)
  rwa [h] at this

theorem sharesRecord_iff_pairQuery :
    ∃ u typename id steps, NamesPath [] pairRoot u typename id steps namedVisit friendVisit := by
  have hspec := (sharesRecord_iff pairQuery pairData (by decide) isName_typename_pair).2 pairRoot
    ownerVisit namedVisit friendVisit [.field "b"] [.field "friend"] .refl
    (.single (leads_iff.mpr ⟨_, leads_ownerVisit⟩)) leads_namedVisit leads_friendVisit
  rcases hspec.mp rfl with ⟨i, -, hi⟩ | ⟨hnone, -⟩ | h | ⟨u, typename, id, steps, h⟩
  · cases hi
  · cases hnone
  · exact h
  · cases h.named

/-- Objects share a record that have not one identity and are not both without one. -/
theorem shared_without_common_identity_pairQuery :
    selectionsNamed pairQuery.selections = true ∧
    (∀ v, Reaches ⟨.byTypeAndId, []⟩ pairRoot v →
      ∀ typename, Json.typename? v.object = some typename → isName typename = true) ∧
    ((normalize .byTypeAndId [] .queryRoot pairQuery.selections pairData).toOption.map
      fun normalized => Assoc.keys normalized.records) =
        some [.queryRoot, ⟨"Droid:1"⟩, ⟨"Droid:1.friend"⟩] ∧
    ¬ ∀ v w x y p q, Reaches ⟨.byTypeAndId, []⟩ pairRoot v →
      Reaches ⟨.byTypeAndId, []⟩ pairRoot w → LeadsBy ⟨.byTypeAndId, []⟩ v p x →
      LeadsBy ⟨.byTypeAndId, []⟩ w q y → x.key = y.key →
        (∃ i, identity? x.object = some i ∧ identity? y.object = some i) ∨
        (identity? x.object = none ∧ identity? y.object = none ∧ v.key = w.key ∧ p = q) := by
  refine ⟨by decide, isName_typename_pair, by decide, fun h => ?_⟩
  rcases h pairRoot ownerVisit namedVisit friendVisit [.field "b"] [.field "friend"] .refl
    (.single (leads_iff.mpr ⟨_, leads_ownerVisit⟩)) leads_namedVisit leads_friendVisit rfl with
    ⟨i, -, hi⟩ | ⟨hnone, -⟩
  · cases hi
  · cases hnone

end Pair

end Normalization

end GraphClient
