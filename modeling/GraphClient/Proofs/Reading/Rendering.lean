import GraphClient.Proofs.Reading.Overlaps

/-!
# What a value that was read shows

When every field is asked for under its own name and always with the same arguments, the name of a
member tells which field of a record it was read from, however many selections ask for it and with
whatever shapes. So a value that was read shows what is stored in a way that does not depend on the
selections (`Renders`): a scalar shows itself, a list its items, and an object a record. A member
shows the field of the record, and is `null` if the record lacks it.

Merging values that show one stored value gives a value that shows it again (`Renders.merge`), and so
does every read (`rendersShape`).
-/

namespace GraphClient

/-- Every field is asked for under its own name and always with the same arguments, and the type
without any. -/
structure AskedPlainly (fields : List Field) : Prop where
  unaliased : ∀ f ∈ fields, f.responseName = f.name
  arguments : ∀ f ∈ fields, ∀ g ∈ fields, f.name = g.name → f.arguments = g.arguments
  typename : ∀ f ∈ fields, f.name = Json.typenameKey → f.arguments = []

namespace AskedPlainly

variable {fields : List Field} {f g : Field}

/-- Fields of one response name are stored under one name. -/
theorem cacheKey_eq (h : AskedPlainly fields) (hf : f ∈ fields) (hg : g ∈ fields)
    (hname : f.responseName = g.responseName) (vars : Json.Object) :
    f.cacheKey vars = g.cacheKey vars := by
  rw [h.unaliased f hf, h.unaliased g hg] at hname
  exact Field.Same.cacheKey_eq ⟨hname, h.arguments f hf g hg hname⟩ vars

theorem cacheKey_typename (h : AskedPlainly fields) (hf : f ∈ fields)
    (hname : f.responseName = Json.typenameKey) (vars : Json.Object) :
    f.cacheKey vars = Json.typenameKey := by
  rw [h.unaliased f hf] at hname
  rw [Field.cacheKey_of_no_arguments (h.typename f hf hname), hname]

end AskedPlainly

namespace Json

/-- A well-formed value is merged with itself without a change. -/
theorem merge_self {x : Json} (h : x.WellFormed) : merge x x = x := by
  rw [← deepMerge_eq_merge (.refl (fun _ => rfl) x) h h, deepMerge_self x h]

/-- A property that merging keeps holds of a member when it holds of all that was merged into it. -/
theorem of_get?_mergeMembers {P : Json → Prop} (hP : ∀ x y, P x → P y → P (merge x y))
    {members : Object} {entries : List (String × Json)} {name : String} {x : Json}
    (hmembers : ∀ y, Assoc.get? members name = some y → P y)
    (hentries : ∀ y, (name, y) ∈ entries → P y)
    (h : Assoc.get? (mergeMembers members entries) name = some x) : P x := by
  induction entries generalizing members with
  | nil => exact hmembers x h
  | cons entry entries ih =>
    obtain ⟨first, value⟩ := entry
    refine ih (fun y hy => ?_) (fun y hy => hentries y (List.mem_cons_of_mem _ hy)) h
    by_cases hname : name = first
    · subst hname
      have hvalue := hentries value List.mem_cons_self
      rw [get?_mergeMember_self, Option.merge_eq_some_iff] at hy
      rcases hy with ⟨-, hnone⟩ | ⟨-, hy⟩ | ⟨u, v, hold, hy, rfl⟩
      · cases hnone
      · exact Option.some.inj hy ▸ hvalue
      · obtain rfl := Option.some.inj hy
        exact hP u _ (hmembers u hold) hvalue
    · rw [get?_mergeMember_of_ne hname] at hy
      exact hmembers y hy

end Json

namespace Reading

/-- The value shows what is stored. In an object every member shows the field of its name, if the
record has it, and is `null` otherwise. -/
inductive Renders (c : Context) (fields : List Field) : FieldValue → Json → Prop
  | scalar {x : Json} (h : x.WellFormed) : Renders c fields (.scalar x) x
  | object {key : RecordKey} {r : Record} {members : Json.Object} (found : c.source key = some r)
      (wellFormed : (Json.object members).WellFormed)
      (asked : ∀ name x, Assoc.get? members name = some x → ∃ f ∈ fields, f.responseName = name)
      (stored : ∀ f ∈ fields, ∀ v x, r.field? (f.cacheKey c.vars) = some v →
        Assoc.get? members f.responseName = some x → Renders c fields v x)
      (absent : ∀ f ∈ fields, ∀ x, r.field? (f.cacheKey c.vars) = none →
        Assoc.get? members f.responseName = some x → x = .null) :
      Renders c fields (.reference key) (.object members)
  | list {values : List FieldValue} {items : List Json} (length : values.length = items.length)
      (pointwise : ∀ (i : ℕ) v x, values[i]? = some v → items[i]? = some x → Renders c fields v x) :
      Renders c fields (.list values) (.array items)

variable {c : Context} {fields : List Field}

/-- Merging values that show one stored value gives a value that shows it. -/
theorem Renders.merge {v : FieldValue} {x y : Json} (hx : Renders c fields v x)
    (hy : Renders c fields v y) : Renders c fields v (Json.merge x y) := by
  induction hx generalizing y with
  | scalar h =>
    cases hy
    rw [Json.merge_self h]
    exact .scalar h
  | list =>
    cases hy with
    | list length pointwise => exact .list length pointwise
  | @object key r members found wellFormed asked stored absent ih =>
    cases hy with
    | @object _ r' members' found' wellFormed' asked' stored' absent' =>
      obtain rfl := Option.some.inj (found.symm.trans found')
      refine .object found (Json.wellFormed_mergeMembers wellFormed wellFormed'.2)
        (fun name z hz => ?_) (fun f hf v z hv hz => ?_) fun f hf z hv hz => ?_
      all_goals
        rw [Json.get?_mergeMembers wellFormed'.1, Option.merge_eq_some_iff] at hz
        rcases hz with ⟨hx, -⟩ | ⟨-, hy⟩ | ⟨x, y, hx, hy, rfl⟩
      · exact asked name _ hx
      · exact asked' name _ hy
      · exact asked name _ hx
      · exact stored f hf v _ hv hx
      · exact stored' f hf v _ hv hy
      · exact ih f hf v _ hv hx (stored' f hf v _ hv hy)
      · exact absent f hf _ hv hx
      · exact absent' f hf _ hv hy
      · rw [absent f hf _ hv hx, absent' f hf _ hv hy]
        rfl

/-- A member shows what a record holds for its field, or is `null` if the record lacks the field. -/
structure Shows (c : Context) (fields : List Field) (slot : Option FieldValue) (x : Json) : Prop where
  stored : ∀ v, slot = some v → Renders c fields v x
  absent : slot = none → x = .null

theorem Shows.merge {slot : Option FieldValue} {x y : Json} (hx : Shows c fields slot x)
    (hy : Shows c fields slot y) : Shows c fields slot (Json.merge x y) where
  stored v hv := (hx.stored v hv).merge (hy.stored v hv)
  absent hslot := by
    rw [hx.absent hslot, hy.absent hslot]
    rfl

/-- Every member was asked for. -/
theorem Renders.exists_asked {key : RecordKey} {members : Json.Object}
    (h : Renders c fields (.reference key) (.object members)) {name : String} {x : Json}
    (hx : Assoc.get? members name = some x) : ∃ f ∈ fields, f.responseName = name := by
  cases h with
  | object _ _ asked => exact asked name x hx

/-- Every member shows a field of the record that is found. -/
theorem Renders.shows {key : RecordKey} {members : Json.Object}
    (h : Renders c fields (.reference key) (.object members)) {r : Record}
    (hr : c.source key = some r) {f : Field} (hf : f ∈ fields) {x : Json}
    (hx : Assoc.get? members f.responseName = some x) :
    Shows c fields (r.field? (f.cacheKey c.vars)) x := by
  cases h with
  | object found _ _ stored absent =>
    obtain rfl := Option.some.inj (hr.symm.trans found)
    exact ⟨fun v hv => stored f hf v x hv hx, fun hv => absent f hf x hv hx⟩

/-- Whatever is read of a well-formed value shows it. -/
def RendersShape (c : Context) (fields : List Field) (shape : Shape) : Prop :=
  ∀ {r field stored value trace}, shapeValue c r field shape stored = .ok (value, trace) →
    stored.WellFormed → Renders c fields stored value

theorem shows_of_fieldValue (hc : c.resolver.NeverRedirects) {r : Record} (hr : r.WellFormed)
    {f : Field × Shape} (hshape : RendersShape c fields f.2) {value : Json} {trace : Trace}
    (h : fieldValue c r f.1 f.2.isObject (shapeValue c r f.1 f.2) = .ok (value, trace)) :
    Shows c fields (r.field? (f.1.cacheKey c.vars)) value := by
  rw [fieldValue_eq_storedField hc] at h
  cases hfield : r.field? (f.1.cacheKey c.vars) with
  | some stored =>
    obtain ⟨_, hvalue, -⟩ := (storedField_of_some hfield).mp h
    refine ⟨fun v hv => ?_, nofun⟩
    obtain rfl := Option.some.inj hv
    exact hshape hvalue (hr.values _ _ hfield)
  | none =>
    obtain ⟨-, rfl, -⟩ := (storedField_of_none hfield).mp h
    exact ⟨nofun, fun _ => rfl⟩

theorem EntriesOf.exists_of_get? {r : Record} {fs : List (Field × Shape)}
    {entries : List (String × Json)} {trace : Trace} (h : EntriesOf c r fs entries trace)
    {name : String} {x : Json} (hx : Assoc.get? (Json.mergeMembers [] entries) name = some x) :
    ∃ f ∈ fs, f.1.responseName = name := by
  have hmem : name ∈ Assoc.keys (Json.mergeMembers [] entries) := by simp [Assoc.mem_keys_iff, hx]
  rw [Json.keys_mergeMembers, Assoc.mem_addKeys] at hmem
  obtain ⟨entry, hentry, rfl⟩ := List.mem_map.mp (hmem.resolve_left List.not_mem_nil)
  obtain ⟨f, hf, hname, -⟩ := h.exists_of_mem hentry
  exact ⟨f, hf, hname⟩

/-- The members of an object that was read show the fields of its record. -/
theorem EntriesOf.shows (hc : c.resolver.NeverRedirects) (hfields : AskedPlainly fields)
    {r : Record} (hr : r.WellFormed) {fs : List (Field × Shape)} (hfs : ∀ f ∈ fs, f.1 ∈ fields)
    (hshapes : ∀ f ∈ fs, RendersShape c fields f.2) {entries : List (String × Json)} {trace : Trace}
    (h : EntriesOf c r fs entries trace) {f : Field} (hf : f ∈ fields) {x : Json}
    (hx : Assoc.get? (Json.mergeMembers [] entries) f.responseName = some x) :
    Shows c fields (r.field? (f.cacheKey c.vars)) x := by
  have hempty : ∀ y, Assoc.get? ([] : Json.Object) f.responseName = some y →
      Shows c fields (r.field? (f.cacheKey c.vars)) y := nofun
  refine Json.of_get?_mergeMembers (fun _ _ => Shows.merge) hempty (fun y hy => ?_) hx
  obtain ⟨g, hg, hname, first, hvalue⟩ := h.exists_of_mem hy
  rw [hfields.cacheKey_eq hf (hfs g hg) hname.symm]
  exact shows_of_fieldValue hc hr (hshapes g hg) hvalue

/-- What is read of a record shows a reference to it. -/
theorem renders_objectOf (hc : c.resolver.NeverRedirects) (hsource : c.source.WellFormed)
    (hfields : AskedPlainly fields) {selections : List Selection}
    (hselections : selectionsAllFields selections ⊆ fields)
    (hshapes : ∀ typename, ∀ f ∈ selectionsApplying typename selections, RendersShape c fields f.2)
    {key : RecordKey} {members : Json.Object} {trace : Trace}
    (h : objectOf c.source key (fun r => selectionsEntries c r selections) = .ok (members, trace)) :
    Renders c fields (.reference key) (.object members) := by
  have hwell := wellFormed_objectOf hsource (fun _ f _ => readsWellFormed hsource f.2) h
  obtain ⟨r, entries, rest, hfound, hentries, rfl, -⟩ := objectOf_eq_ok_iff.mp h
  have hwalk := selectionsEntries_eq_ok_iff.mp hentries
  have hasked : ∀ f ∈ selectionsApplying (recordTypename? r) selections, f.1 ∈ fields :=
    fun f hf => hselections (allFields_of_applying hf).1
  have hshows := fun {f} hf {x} hx =>
    hwalk.shows (f := f) (x := x) hc hfields (hsource key r hfound) hasked (hshapes _) hf hx
  refine .object hfound hwell (fun name x hx => ?_) (fun f hf v x hv hx => (hshows hf hx).stored v hv)
    fun f hf x hv hx => (hshows hf hx).absent hv
  obtain ⟨f, hf, hname⟩ := hwalk.exists_of_get? hx
  exact ⟨f.1, hasked f hf, hname⟩

theorem renders_itemsOf {item : FieldValue → Except ReadError (Json × Trace)}
    (hitem : ∀ {stored value trace}, item stored = .ok (value, trace) → stored.WellFormed →
      Renders c fields stored value) {items : List FieldValue} {values : List Json} {trace : Trace}
    (h : itemsOf item items = .ok (values, trace)) (hitems : FieldValue.WellFormedItems items) :
    List.Forall₂ (Renders c fields) items values := by
  induction items generalizing values trace with
  | nil =>
    cases h
    exact .nil
  | cons x xs ih =>
    obtain ⟨value, others, first, rest, hvalue, hothers, rfl, rfl⟩ := itemsOf_cons_eq_ok_iff.mp h
    exact .cons (hitem hvalue hitems.1) (ih hothers hitems.2)

theorem rendersShape (hc : c.resolver.NeverRedirects) (hsource : c.source.WellFormed)
    (hfields : AskedPlainly fields) (shape : Shape) (hshape : shape.allFields ⊆ fields) :
    RendersShape c fields shape := by
  induction shape using Shape.inductionOn with
  | leaf =>
    intro r field stored value trace h hstored
    obtain ⟨rfl, -⟩ := shapeValue_leaf_eq_ok_iff.mp h
    exact .scalar hstored
  | list item ih =>
    intro r field stored value trace h hstored
    rcases shapeValue_list_eq_ok_iff.mp h with ⟨rfl, rfl, -⟩ | ⟨items, values, rfl, rfl, hitems⟩
    · exact .scalar trivial
    · have hrenders := renders_itemsOf (ih hshape) hitems hstored
      obtain ⟨length, pointwise⟩ := forall₂_iff_getElem?.mp hrenders
      exact .list length pointwise
  | object selections ih =>
    intro r field stored value trace h hstored
    rcases shapeValue_object_eq_ok_iff.mp h with ⟨rfl, rfl, -⟩ | ⟨key, members, rfl, rfl, hmembers⟩
    · exact .scalar trivial
    · refine renders_objectOf hc hsource hfields hshape (fun typename f hf => ?_) hmembers
      exact ih typename f hf fun g hg => hshape ((allFields_of_applying hf).2 hg)

end Reading

end GraphClient
