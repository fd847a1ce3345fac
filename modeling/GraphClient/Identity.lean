import GraphClient.Record.Basic
import GraphClient.Selection.Basic

/-!
# The identity of objects

A `KeyResolver` decides under which key an object is stored. `ofObject` looks at an object of a
response; without a key there, the object is stored under the path on which it was reached.
`ofArguments` looks at the arguments of a field before its value is looked up, so that a field such as
`hero(id: 1000)` can be answered by a record that another query has stored.

A resolver is told of a field by its names, its arguments and whether it may be null (`Field`). It is
not told what is selected below it, so a resolver that decides by the shape of its field is not
covered here.
-/

namespace GraphClient

structure KeyResolver where
  ofObject : Field → Json.Object → Option RecordKey
  /-- The key of the record that an object field reads from, by its arguments. -/
  ofArguments : Field → Json.Object → Option RecordKey

namespace KeyResolver

/-- The key `type:id` of an object with a string `__typename` and a scalar `id`. -/
def typeAndId? (object : Json.Object) : Option RecordKey := do
  let typename ← Json.typename? object
  let id ← Assoc.get? object "id"
  let fragment ← id.keyFragment?
  pure ⟨typename ++ ":" ++ fragment⟩

/-- Objects are identified by their type and `id`, fields never by their arguments. -/
def byTypeAndId : KeyResolver where
  ofObject _ object := typeAndId? object
  ofArguments _ _ := none

/-- Every object is stored under its path. -/
def byPath : KeyResolver where
  ofObject _ _ := none
  ofArguments _ _ := none

/-- The key `typename:id` for the first argument named `id`, when its value is a string. -/
def idArgument? (typename : String) (field : Field) (vars : Json.Object) :
    Option RecordKey := do
  let argument ← field.arguments.find? fun a => a.1 = "id"
  let id ← (argument.2.resolve vars).asString?
  pure ⟨typename ++ ":" ++ id⟩

/-- As `byTypeAndId`, and a field with a string argument `id` reads the entity of that type. -/
def redirecting (typename : String) : KeyResolver where
  ofObject _ object := typeAndId? object
  ofArguments := idArgument? typename

/-- The string value of one member of an object is its key. -/
def byMember (name : String) : KeyResolver where
  ofObject _ object := ((Assoc.get? object name).bind Json.asString?).map RecordKey.mk
  ofArguments _ _ := none

/-- The resolver sends no field to a record by its arguments. -/
def NeverRedirects (resolver : KeyResolver) : Prop :=
  ∀ field vars, resolver.ofArguments field vars = none

theorem neverRedirects_byTypeAndId : byTypeAndId.NeverRedirects := fun _ _ => rfl

theorem neverRedirects_byPath : byPath.NeverRedirects := fun _ _ => rfl

end KeyResolver

end GraphClient
