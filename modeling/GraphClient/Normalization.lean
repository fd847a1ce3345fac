import GraphClient.Identity
import GraphClient.Record.Table

/-!
# Taking the data of a response apart into records

Every object of a response becomes a record: under the key that the resolver gives it, else under the
path on which it was reached. The record of an object holds a reference wherever the object held
another object.

The walk follows the selections and yields `Pieces`: for every object first an empty record, which
gives its key a place before the keys of its children, then the pieces of its children, then the
record of its own fields. Two fields of one object that are stored under one name leave the value of
the later; records of one key are merged. A field that the data lacks is left out.
-/

namespace GraphClient

/-- The value of a field does not have the shape that is asked for. -/
inductive ShapeMismatch where
  | expectedObject (responseName : String) (path : RecordKey)
  | expectedList (responseName : String) (path : RecordKey)
deriving DecidableEq, Repr

def ShapeMismatch.message : ShapeMismatch → String
  | expectedObject name path => "expected an object for field '" ++ name ++ "' at '" ++ path.text ++ "'"
  | expectedList name path => "expected a list for field '" ++ name ++ "' at '" ++ path.text ++ "'"

/-- What a part of a response is taken apart into. -/
structure Pieces where
  /-- Records to be merged, in the order of the walk. -/
  records : List Record := []
  /-- The field keys of all fields on the way. -/
  fieldKeys : List String := []

namespace Pieces

def append (a b : Pieces) : Pieces := ⟨a.records ++ b.records, a.fieldKeys ++ b.fieldKeys⟩

instance : Append Pieces := ⟨append⟩

instance : EmptyCollection Pieces := ⟨⟨[], []⟩⟩

@[simp] theorem records_append (a b : Pieces) : (a ++ b).records = a.records ++ b.records := rfl

@[simp] theorem fieldKeys_append (a b : Pieces) :
    (a ++ b).fieldKeys = a.fieldKeys ++ b.fieldKeys := rfl

end Pieces

structure Normalized where
  /-- The records in the order in which their keys were first reached. -/
  records : RecordTable
  /-- The field keys of every field that was written. -/
  dependentKeys : KeySet

namespace Normalization

structure Context where
  resolver : KeyResolver
  vars : Json.Object

/-- The record of fields that were found one after the other. -/
def recordOf (key : RecordKey) (fields : List (String × FieldValue)) : Record :=
  fields.foldl (fun r f => r.setField f.1 f.2) ⟨key, []⟩

/-- The pieces of an object: its place, those of its children, its record. -/
def objectPieces (key : RecordKey) (fields : List (String × FieldValue)) (children : Pieces) :
    Pieces :=
  ⟨⟨key, []⟩ :: (children.records ++ [recordOf key fields]), children.fieldKeys⟩

/-- The values of the items of a list, each at its own path. -/
def itemValues (value : RecordKey → Json → Except ShapeMismatch (FieldValue × Pieces))
    (path : RecordKey) : (index : Nat) → List Json →
      Except ShapeMismatch (List FieldValue × Pieces)
  | _, [] => .ok ([], ∅)
  | index, x :: xs => do
    let (first, pieces) ← value (path.item index) x
    let (others, more) ← itemValues value path (index + 1) xs
    pure (first :: others, pieces ++ more)

mutual

/-- The fields that selections find in an object, with the pieces of its children. -/
def selectionsFields (c : Context) (key : RecordKey) (object : Json.Object) :
    List Selection → Except ShapeMismatch (List (String × FieldValue) × Pieces)
  | [] => .ok ([], ∅)
  | s :: ss => do
    let (fields, pieces) ← selectionFields c key object s
    let (others, more) ← selectionsFields c key object ss
    pure (fields ++ others, pieces ++ more)

/-- The fields that one selection finds. A fragment looks at the type that the object names. -/
def selectionFields (c : Context) (key : RecordKey) (object : Json.Object) :
    Selection → Except ShapeMismatch (List (String × FieldValue) × Pieces)
  | .field field shape =>
    match Assoc.get? object field.responseName with
    | none => .ok ([], ∅)
    | some value => do
      let name := field.cacheKey c.vars
      let (stored, pieces) ← shapeValue c field shape (key.child name) value
      pure ([(name, stored)], pieces ++ ⟨[], [key.fieldKey name]⟩)
  | .fragment types selections =>
    if fragmentApplies types (Json.typename? object) then selectionsFields c key object selections
    else .ok ([], ∅)

/-- What a record holds for a value of a shape; `null` fits every shape. -/
def shapeValue (c : Context) (field : Field) :
    Shape → RecordKey → Json → Except ShapeMismatch (FieldValue × Pieces)
  | _, _, .null => .ok (.scalar .null, ∅)
  | .leaf, _, value => .ok (.scalar value, ∅)
  | .object selections, path, .object members => do
    let key := (c.resolver.ofObject field members).getD path
    let (fields, children) ← selectionsFields c key members selections
    pure (.reference key, objectPieces key fields children)
  | .list item, path, .array items => do
    let (values, pieces) ← itemValues (shapeValue c field item) path 0 items
    pure (.list values, pieces)
  | .object _, path, _ => .error (.expectedObject field.responseName path)
  | .list _, path, _ => .error (.expectedList field.responseName path)

end

def pieces (c : Context) (root : RecordKey) (selections : List Selection) (data : Json.Object) :
    Except ShapeMismatch Pieces := do
  let (fields, children) ← selectionsFields c root data selections
  pure (objectPieces root fields children)

end Normalization

/-- The records of the data of a response, or the first value that does not fit its shape. -/
def normalize (resolver : KeyResolver) (vars : Json.Object) (root : RecordKey)
    (selections : List Selection) (data : Json.Object) : Except ShapeMismatch Normalized := do
  let pieces ← Normalization.pieces ⟨resolver, vars⟩ root selections data
  pure ⟨RecordTable.ofRecords pieces.records, KeySet.ofList pieces.fieldKeys⟩

end GraphClient
