import GraphClient.Json.Canonical

/-!
# Arguments of fields

An argument is written in the query document: a literal, a variable, or an input object or list of
arguments. `resolve` puts the values of the variables in; a variable without a value is `null`. In an
input object that repeats a name the last value wins.
-/

namespace GraphClient

/-- The value of a field argument as it is written in a query document. -/
inductive Argument where
  | literal (value : Json)
  | ofVariable (name : String)
  | object (fields : List (String × Argument))
  | list (items : List Argument)

namespace Argument

instance : Inhabited Argument := ⟨literal .null⟩

mutual

/-- The value of an argument under the values of the variables. -/
def resolve (vars : Json.Object) : Argument → Json
  | literal value => value
  | ofVariable name => (Assoc.get? vars name).getD .null
  | object fields => .object (Assoc.ofEntries (resolveFields vars fields))
  | list items => .array (resolveItems vars items)

/-- The values of the fields of an input object; repeated names are kept. -/
def resolveFields (vars : Json.Object) : List (String × Argument) → List (String × Json)
  | [] => []
  | (name, argument) :: fields =>
    (name, resolve vars argument) :: resolveFields vars fields

def resolveItems (vars : Json.Object) : List Argument → List Json
  | [] => []
  | item :: items => resolve vars item :: resolveItems vars items

end

theorem resolveFields_eq_map (vars : Json.Object) (fields : List (String × Argument)) :
    resolveFields vars fields = fields.map fun f => (f.1, f.2.resolve vars) := by
  induction fields with
  | nil => rfl
  | cons f fs ih => simp [resolveFields, ih]

theorem resolveItems_eq_map (vars : Json.Object) (items : List Argument) :
    resolveItems vars items = items.map (resolve vars) := by
  induction items with
  | nil => rfl
  | cons x xs ih => simp [resolveItems, ih]

end Argument

/-- The value of an argument list: an object of the resolved arguments. -/
def resolveArguments (vars : Json.Object) (arguments : List (String × Argument)) : Json :=
  (Argument.object arguments).resolve vars

end GraphClient
