import GraphClient.Identity
import GraphClient.Record.Table

/-!
# Putting data together from records

Reading follows the selections from a root record and resolves every reference that an object
selection meets. A fragment looks at the type that the record holds. A field may be absent from its
record only when it is nullable; then it reads as `null`.

What was read for one response name by several selections is merged: objects member by member, any
other value is replaced by the later one.

Every part of a read returns a `Trace` of its own: the field keys it looked up and the records it
loaded. The trace of a read is that of its parts one after the other.
-/

namespace GraphClient

inductive ReadError where
  | missingRecord (key : RecordKey)
  | missingField (key : RecordKey) (field : String)
  | unexpectedValue (key : RecordKey) (field : String)
deriving DecidableEq, Repr

def ReadError.message : ReadError → String
  | missingRecord key => "missing record '" ++ key.text ++ "'"
  | missingField key field => "missing field '" ++ field ++ "' in record '" ++ key.text ++ "'"
  | unexpectedValue key field =>
    "unexpected value for field '" ++ field ++ "' in record '" ++ key.text ++ "'"

/-- Where records are looked up. -/
abbrev RecordSource := RecordKey → Option Record

/-- What a part of a read looked at. -/
structure Trace where
  fieldKeys : List String := []
  /-- The records that were loaded, each time they were. -/
  loaded : List (RecordKey × Record) := []

namespace Trace

def append (a b : Trace) : Trace := ⟨a.fieldKeys ++ b.fieldKeys, a.loaded ++ b.loaded⟩

instance : Append Trace := ⟨append⟩

instance : EmptyCollection Trace := ⟨⟨[], []⟩⟩

@[simp] theorem fieldKeys_append (a b : Trace) : (a ++ b).fieldKeys = a.fieldKeys ++ b.fieldKeys :=
  rfl

@[simp] theorem loaded_append (a b : Trace) : (a ++ b).loaded = a.loaded ++ b.loaded := rfl

end Trace

namespace Json

mutual

/-- Sets a member; an object is merged into the object that is there. -/
def mergeMember (members : Object) (name : String) : Json → Object
  | object incoming =>
    match Assoc.get? members name with
    | some (object existing) => Assoc.insert members name (object (mergeMembers existing incoming))
    | _ => Assoc.insert members name (object incoming)
  | value => Assoc.insert members name value

def mergeMembers (members : Object) : List (String × Json) → Object
  | [] => members
  | (name, value) :: incoming => mergeMembers (mergeMember members name value) incoming

end

end Json

structure ReadResult where
  data : Json.Object
  /-- The field keys of every field that was looked up. -/
  dependentKeys : KeySet
  /-- The records that were loaded, in the order in which each was first loaded. -/
  records : RecordTable

namespace Reading

structure Context where
  source : RecordSource
  resolver : KeyResolver
  vars : Json.Object

/-- The concrete type that a record names, when that is a string. -/
def recordTypename? (r : Record) : Option String :=
  match r.field? Json.typenameKey with
  | some (.scalar (.string typename)) => some typename
  | _ => none

/-- The object of a record of which `body` reads the entries. -/
def objectOf (source : RecordSource) (key : RecordKey)
    (body : Record → Except ReadError (List (String × Json) × Trace)) :
    Except ReadError (Json.Object × Trace) :=
  match source key with
  | none => .error (.missingRecord key)
  | some r => do
    let (entries, trace) ← body r
    pure (Json.mergeMembers [] entries, ⟨[], [(key, r)]⟩ ++ trace)

/-- The items of a list, each read by itself. -/
def itemsOf (item : FieldValue → Except ReadError (Json × Trace)) :
    List FieldValue → Except ReadError (List Json × Trace)
  | [] => .ok ([], ∅)
  | x :: xs => do
    let (first, trace) ← item x
    let (others, more) ← itemsOf item xs
    pure (first :: others, trace ++ more)

/-- The record that the arguments of a field name, when there is such a record. -/
def redirect? (c : Context) (field : Field) : Option RecordKey :=
  (c.resolver.ofArguments field c.vars).filter fun key => (c.source key).isSome

/-- The value of a field that is looked up in a record; `value` reads what is stored. -/
def storedField (c : Context) (r : Record) (field : Field)
    (value : FieldValue → Except ReadError (Json × Trace)) : Except ReadError (Json × Trace) :=
  let name := field.cacheKey c.vars
  match r.field? name with
  | some stored => do
    let (read, trace) ← value stored
    pure (read, ⟨[r.key.fieldKey name], []⟩ ++ trace)
  | none =>
    if field.nullable then .ok (.null, ⟨[r.key.fieldKey name], []⟩)
    else .error (.missingField r.key name)

/-- The value of a field of a record. An object field is read from the record that its arguments
name, if there is one; only otherwise is the field itself looked up. -/
def fieldValue (c : Context) (r : Record) (field : Field) (isObject : Bool)
    (value : FieldValue → Except ReadError (Json × Trace)) : Except ReadError (Json × Trace) :=
  match if isObject then redirect? c field else none with
  | some key => value (.reference key)
  | none => storedField c r field value

mutual

/-- The entries that selections read from a record, in order, names possibly repeated. -/
def selectionsEntries (c : Context) (r : Record) :
    List Selection → Except ReadError (List (String × Json) × Trace)
  | [] => .ok ([], ∅)
  | s :: ss => do
    let (entries, trace) ← selectionEntries c r s
    let (others, more) ← selectionsEntries c r ss
    pure (entries ++ others, trace ++ more)

/-- The entries that one selection reads. -/
def selectionEntries (c : Context) (r : Record) :
    Selection → Except ReadError (List (String × Json) × Trace)
  | .field field shape => do
    let (value, trace) ← fieldValue c r field shape.isObject (shapeValue c r field shape)
    pure ([(field.responseName, value)], trace)
  | .fragment types selections =>
    if fragmentApplies types (recordTypename? r) then selectionsEntries c r selections
    else .ok ([], ∅)

/-- What a stored value of a shape reads as; `null` fits every shape. -/
def shapeValue (c : Context) (r : Record) (field : Field) :
    Shape → FieldValue → Except ReadError (Json × Trace)
  | _, .scalar .null => .ok (.null, ∅)
  | .leaf, .scalar value => .ok (value, ∅)
  | .object selections, .reference key => do
    let (members, trace) ← objectOf c.source key fun r => selectionsEntries c r selections
    pure (.object members, trace)
  | .list item, .list items => do
    let (values, trace) ← itemsOf (shapeValue c r field item) items
    pure (.array values, trace)
  | _, _ => .error (.unexpectedValue r.key field.name)

end

end Reading

/-- The data of an operation read from a source of records. -/
def readData (source : RecordSource) (resolver : KeyResolver) (vars : Json.Object)
    (root : RecordKey) (selections : List Selection) : Except ReadError ReadResult := do
  let c : Reading.Context := ⟨source, resolver, vars⟩
  let (data, trace) ← Reading.objectOf source root fun r => Reading.selectionsEntries c r selections
  pure ⟨data, KeySet.ofList trace.fieldKeys, Assoc.ofEntries trace.loaded⟩

end GraphClient
