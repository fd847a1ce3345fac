import GraphClient.Selection.Argument

/-!
# Selections

What an operation asks of an object is a list of selections. A field is asked for with its arguments
and a `Shape`: a leaf, an object with selections of its own, or a list of one shape. A fragment asks
for more fields of the same object, if the concrete type of the object is among its types.

The same tree is walked when a response is taken apart into records and when it is put together
again, so both walks recurse on it and not on the data.
-/

namespace GraphClient

/-- A field as it is asked for, apart from the shape of its value. -/
structure Field where
  /-- The name in the response: the alias, if there is one. -/
  responseName : String
  name : String
  arguments : List (String × Argument) := []
  /-- Whether a record may lack the field. -/
  nullable : Bool := false

mutual

inductive Selection where
  | field (field : Field) (shape : Shape)
  | fragment (types : List String) (selections : List Selection)

inductive Shape where
  | leaf
  | object (selections : List Selection)
  /-- A list of values of one shape. -/
  | list (item : Shape)

end

instance : Inhabited Shape := ⟨.leaf⟩

/-- Whether an object is asked for, and not a leaf or a list. -/
def Shape.isObject : Shape → Bool
  | .object _ => true
  | _ => false

instance : Inhabited Selection := ⟨.fragment [] []⟩

namespace Field

/-- The name under which a record stores the field: its name and, if there are arguments, the
canonical text of their values in parentheses. One field asked for with different arguments thus has
different names. -/
def cacheKey (field : Field) (vars : Json.Object) : String :=
  if field.arguments.isEmpty then field.name
  else
    let values := (resolveArguments vars field.arguments).canonicalText
    field.name ++ "(" ++ values ++ ")"

theorem cacheKey_of_no_arguments {field : Field} (h : field.arguments = [])
    (vars : Json.Object) : field.cacheKey vars = field.name := by
  simp [cacheKey, h]

end Field

/-- Whether a fragment on these types applies to an object of a concrete type. -/
def fragmentApplies (types : List String) (typename : Option String) : Bool :=
  match typename with
  | none => false
  | some name => types.contains name

@[simp] theorem fragmentApplies_none (types : List String) : fragmentApplies types none = false :=
  rfl

theorem fragmentApplies_some {types : List String} {name : String} :
    fragmentApplies types (some name) = true ↔ name ∈ types := by
  simp [fragmentApplies]

end GraphClient
