import GraphClient.Proofs.Normalization.Visits

/-!
# The list of the objects on the way

`Visit.all` goes through the data once and lists the objects that are taken apart, so that what is
claimed of every object on the way can be evaluated. It lists what is reached and nothing else
(`Visit.mem_all_iff`).
-/

namespace GraphClient.Normalization

/-- The objects that are listed for the items of a list. -/
def itemVisits (visits : RecordKey → Json → List Visit) (path : RecordKey) :
    (index : Nat) → List Json → List Visit
  | _, [] => []
  | index, x :: xs => visits (path.item index) x ++ itemVisits visits path (index + 1) xs

mutual

/-- The objects inside an object that selections lead to. -/
def selectionsVisits (c : Context) (key : RecordKey) (object : Json.Object) :
    List Selection → List Visit
  | [] => []
  | s :: ss => selectionVisits c key object s ++ selectionsVisits c key object ss

def selectionVisits (c : Context) (key : RecordKey) (object : Json.Object) :
    Selection → List Visit
  | .field field shape =>
    match Assoc.get? object field.responseName with
    | none => []
    | some value => shapeVisits c field shape (key.child (field.cacheKey c.vars)) value
  | .fragment types selections =>
    if fragmentApplies types (Json.typename? object) then selectionsVisits c key object selections
    else []

/-- The objects that a value of a shape holds, with those inside of them. -/
def shapeVisits (c : Context) (field : Field) : Shape → RecordKey → Json → List Visit
  | .object selections, path, .object members =>
    let key := (c.resolver.ofObject field members).getD path
    ⟨key, selections, members⟩ :: selectionsVisits c key members selections
  | .list item, path, .array items => itemVisits (shapeVisits c field item) path 0 items
  | _, _, _ => []

end

/-- An object and those on the way from it. -/
def Visit.all (c : Context) (v : Visit) : List Visit :=
  v :: selectionsVisits c v.key v.object v.selections

variable {c : Context}

/-- The objects that a field of an object leads to. -/
def fieldVisits (c : Context) (key : RecordKey) (object : Json.Object) (f : Field × Shape) :
    List Visit :=
  match Assoc.get? object f.1.responseName with
  | none => []
  | some value => shapeVisits c f.1 f.2 (key.child (f.1.cacheKey c.vars)) value

theorem mem_fieldVisits {key : RecordKey} {object : Json.Object} {f : Field × Shape} {w : Visit} :
    w ∈ fieldVisits c key object f ↔ ∃ value, Assoc.get? object f.1.responseName = some value ∧
      w ∈ shapeVisits c f.1 f.2 (key.child (f.1.cacheKey c.vars)) value := by
  rw [fieldVisits]
  cases Assoc.get? object f.1.responseName <;> simp

mutual

theorem selectionVisits_eq {key : RecordKey} {object : Json.Object} : ∀ s : Selection,
    selectionVisits c key object s =
      (s.applying (Json.typename? object)).flatMap (fieldVisits c key object)
  | .field field shape => by
    rw [selectionVisits, Selection.applying, List.flatMap_singleton, fieldVisits]
  | .fragment types selections => by
    rw [selectionVisits, Selection.applying]
    split
    · exact selectionsVisits_eq selections
    · rfl

/-- The objects inside an object are those of the fields that apply. -/
theorem selectionsVisits_eq {key : RecordKey} {object : Json.Object} : ∀ ss : List Selection,
    selectionsVisits c key object ss =
      (selectionsApplying (Json.typename? object) ss).flatMap (fieldVisits c key object)
  | [] => by
    rw [selectionsVisits, selectionsApplying]
    rfl
  | s :: ss => by
    rw [selectionsVisits, selectionsApplying_cons, List.flatMap_append, selectionVisits_eq s,
      selectionsVisits_eq ss]

end

theorem mem_itemVisits {visits : RecordKey → Json → List Visit} {path : RecordKey} {start : Nat}
    {items : List Json} {w : Visit} :
    w ∈ itemVisits visits path start items ↔
      ∃ index x, items[index]? = some x ∧ w ∈ visits (path.item (start + index)) x := by
  induction items generalizing start with
  | nil => simp [itemVisits]
  | cons x xs ih =>
    rw [itemVisits, List.mem_append, ih]
    constructor
    · rintro (hw | ⟨index, y, hy, hw⟩)
      · exact ⟨0, x, rfl, hw⟩
      · rw [show start + 1 + index = start + (index + 1) by omega] at hw
        exact ⟨index + 1, y, hy, hw⟩
    · rintro ⟨index, y, hy, hw⟩
      cases index with
      | zero =>
        cases hy
        exact .inl hw
      | succ index =>
        rw [show start + (index + 1) = start + 1 + index by omega] at hw
        exact .inr ⟨index, y, hy, hw⟩

/-- The list for a shape has the objects that a value of it holds, and those on the way from them. -/
def ShapeListed (c : Context) (shape : Shape) : Prop :=
  ∀ {field path value w}, w ∈ shapeVisits c field shape path value ↔
    ∃ v, Meets c field shape path value v ∧ Reaches c v w

theorem mem_all_of_listed {v : Visit} (hshapes : ∀ f ∈ v.fields, ShapeListed c f.2) {w : Visit} :
    w ∈ v.all c ↔ Reaches c v w := by
  rw [Visit.all, List.mem_cons, selectionsVisits_eq, List.mem_flatMap]
  constructor
  · rintro (rfl | ⟨f, hf, hw⟩)
    · exact .refl
    · obtain ⟨value, hvalue, hw⟩ := mem_fieldVisits.mp hw
      obtain ⟨u, hmeets, hreaches⟩ := (hshapes f hf).mp hw
      exact .head ⟨f, hf, value, hvalue, hmeets⟩ hreaches
  · intro h
    rcases h.cases_head with rfl | ⟨u, ⟨f, hf, value, hvalue, hmeets⟩, hreaches⟩
    · exact .inl rfl
    · exact .inr ⟨f, hf, mem_fieldVisits.mpr ⟨value, hvalue, (hshapes f hf).mpr ⟨u, hmeets, hreaches⟩⟩⟩

theorem shapeListed (c : Context) (shape : Shape) : ShapeListed c shape := by
  induction shape using Shape.inductionOn with
  | leaf =>
    intro field path value w
    constructor
    · intro hw
      rw [shapeVisits] at hw
      · cases hw
      all_goals nofun
    · rintro ⟨v, hmeets, -⟩
      cases hmeets
  | list item ih =>
    intro field path value w
    cases value with
    | array items =>
      rw [shapeVisits, mem_itemVisits]
      constructor
      · rintro ⟨index, x, hx, hw⟩
        obtain ⟨v, hmeets, hreaches⟩ := ih.mp hw
        rw [Nat.zero_add] at hmeets
        exact ⟨v, .item hx hmeets, hreaches⟩
      · rintro ⟨v, hmeets, hreaches⟩
        cases hmeets with
        | @item _ _ _ index x _ hx hmeets =>
          rw [← Nat.zero_add index] at hmeets
          exact ⟨index, x, hx, ih.mpr ⟨v, hmeets, hreaches⟩⟩
    | _ => exact ⟨nofun, fun ⟨v, hmeets, _⟩ => nomatch hmeets⟩
  | object selections ih =>
    intro field path value w
    cases value with
    | object members =>
      rw [shapeVisits]
      have hall := mem_all_of_listed (w := w)
        (v := ⟨(c.resolver.ofObject field members).getD path, selections, members⟩) (ih _)
      refine hall.trans ?_
      constructor
      · exact fun h => ⟨_, .object, h⟩
      · rintro ⟨v, hmeets, hreaches⟩
        cases hmeets
        exact hreaches
    | _ => exact ⟨nofun, fun ⟨v, hmeets, _⟩ => nomatch hmeets⟩

theorem Visit.mem_all_iff {v w : Visit} : w ∈ v.all c ↔ Reaches c v w :=
  mem_all_of_listed fun f _ => shapeListed c f.2

end GraphClient.Normalization
