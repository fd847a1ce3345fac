import GraphClient.Proofs.Json.Equality
import GraphClient.Proofs.Selection.Applying

/-!
# Restricting data to selections

`Shape.restrict` leaves of a value what a shape asks for: of an object the members of the fields that
apply, in the order of the selections, and so on for what the members hold. A leaf is left as it is.
Data that restricting leaves as it is has at every object of the shape exactly the selected members,
in the order of the selections.
-/

namespace GraphClient

mutual

/-- The member that a selection leaves of an object of a concrete type. -/
def Selection.restrict (typename : Option String) (members : Json.Object) : Selection → Json.Object
  | .field field shape =>
    match Assoc.get? members field.responseName with
    | none => []
    | some value => [(field.responseName, shape.restrict value)]
  | .fragment types selections =>
    if fragmentApplies types typename then selectionsRestrict typename members selections else []

/-- The members that selections leave of an object of a concrete type. -/
def selectionsRestrict (typename : Option String) (members : Json.Object) :
    List Selection → Json.Object
  | [] => []
  | s :: ss => s.restrict typename members ++ selectionsRestrict typename members ss

/-- What a shape leaves of a value. -/
def Shape.restrict : Shape → Json → Json
  | .object selections, .object members =>
    .object (selectionsRestrict (Json.typename? members) members selections)
  | .list item, .array items => .array (items.map fun x => item.restrict x)
  | _, value => value

end

/-- The member that a field leaves of an object, if there is one. -/
def restrictField (members : Json.Object) (f : Field × Shape) : Option (String × Json) :=
  (Assoc.get? members f.1.responseName).map fun value => (f.1.responseName, f.2.restrict value)

mutual

theorem Selection.restrict_eq_filterMap (typename : Option String) (members : Json.Object) :
    ∀ s : Selection, s.restrict typename members =
      (s.applying typename).filterMap (restrictField members)
  | .field field shape => by
    rw [Selection.restrict, Selection.applying, List.filterMap_cons, List.filterMap_nil,
      restrictField]
    cases Assoc.get? members field.responseName <;> rfl
  | .fragment types selections => by
    rw [Selection.restrict, Selection.applying]
    split
    · exact selectionsRestrict_eq_filterMap typename members selections
    · rfl

/-- Restricting an object goes through the fields that apply. -/
theorem selectionsRestrict_eq_filterMap (typename : Option String) (members : Json.Object) :
    ∀ ss : List Selection, selectionsRestrict typename members ss =
      (selectionsApplying typename ss).filterMap (restrictField members)
  | [] => by rw [selectionsRestrict, selectionsApplying, List.filterMap_nil]
  | s :: ss => by
    rw [selectionsRestrict, selectionsApplying_cons, List.filterMap_append,
      Selection.restrict_eq_filterMap typename members s,
      selectionsRestrict_eq_filterMap typename members ss]

end

theorem Shape.restrict_object (selections : List Selection) (members : Json.Object) :
    (Shape.object selections).restrict (.object members) =
      .object ((selectionsApplying (Json.typename? members) selections).filterMap
        (restrictField members)) := by
  rw [Shape.restrict, selectionsRestrict_eq_filterMap]

theorem Shape.restrict_list (item : Shape) (items : List Json) :
    (Shape.list item).restrict (.array items) = .array (items.map item.restrict) := by
  rw [Shape.restrict]

@[simp] theorem Shape.restrict_leaf (value : Json) : Shape.leaf.restrict value = value := by
  rw [Shape.restrict] <;> simp

@[simp] theorem Shape.restrict_null (shape : Shape) : shape.restrict .null = .null := by
  cases shape <;> rw [Shape.restrict] <;> simp

end GraphClient
