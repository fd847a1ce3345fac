import GraphClient.Json.Basic
import GraphClient.KeySet

/-!
# Records

A record holds the fields of one entity under its key. The value of a field is a JSON value, a
reference to another record, or a list of such values.

`mergeWith` takes the fields of another record over. It reports the field keys of the fields that
were new or had a different value; a field whose value is equal keeps the value it has, so the order
of the keys of a stored object does not change by merging an equal one.
-/

namespace GraphClient

structure RecordKey where
  text : String
deriving DecidableEq, Repr

namespace RecordKey

instance : Inhabited RecordKey := ⟨⟨""⟩⟩

/-- The key of a part of this record: the key, a point and the name of the part. It names both the
record of an object without an identity and the field in sets of changed fields. -/
def fieldKey (key : RecordKey) (name : String) : String := key.text ++ "." ++ name

/-- The key of the record of an object that has no identity of its own. -/
def child (key : RecordKey) (name : String) : RecordKey := ⟨key.fieldKey name⟩

/-- The key of the item of a list at this place. -/
def item (key : RecordKey) (index : Nat) : RecordKey :=
  key.child (String.ofList (Nat.toDigits 10 index))

def queryRoot : RecordKey := ⟨"QUERY_ROOT"⟩

def mutationRoot : RecordKey := ⟨"MUTATION_ROOT"⟩

end RecordKey

inductive FieldValue where
  | scalar (value : Json)
  | reference (key : RecordKey)
  | list (items : List FieldValue)

namespace FieldValue

instance : Inhabited FieldValue := ⟨scalar .null⟩

mutual

/-- Equality up to the order of the keys of JSON objects. -/
def equal : FieldValue → FieldValue → Bool
  | scalar a, scalar b => a == b
  | reference a, reference b => a == b
  | list xs, list ys => equalItems xs ys
  | _, _ => false

def equalItems : List FieldValue → List FieldValue → Bool
  | [], [] => true
  | x :: xs, y :: ys => equal x y && equalItems xs ys
  | _, _ => false

end

instance : BEq FieldValue := ⟨equal⟩

end FieldValue

/-- The fields of one entity, in the order in which they were first set. -/
structure Record where
  key : RecordKey
  fields : Assoc String FieldValue := []

namespace Record

instance : Inhabited Record := ⟨⟨default, []⟩⟩

def field? (r : Record) (name : String) : Option FieldValue := Assoc.get? r.fields name

def setField (r : Record) (name : String) (value : FieldValue) : Record :=
  { r with fields := Assoc.insert r.fields name value }

def size (r : Record) : Nat := r.fields.length

/-- The field keys of all fields. -/
def fieldKeys (r : Record) : KeySet := KeySet.ofList ((Assoc.keys r.fields).map r.key.fieldKey)

/-- Whether the record has this value for the field. -/
def holds (r : Record) (name : String) (value : FieldValue) : Bool :=
  match r.field? name with
  | some existing => existing == value
  | none => false

/-- Takes one field over, unless the record has an equal value. -/
def mergeField (r : Record) (name : String) (value : FieldValue) : Record :=
  if r.holds name value then r else r.setField name value

/-- Takes fields over one after the other, and collects the field keys of those that changed. -/
def mergeFields (r : Record) : List (String × FieldValue) → Record × KeySet
  | [] => (r, ∅)
  | (name, value) :: fields =>
    let (merged, changed) := (r.mergeField name value).mergeFields fields
    (merged, if r.holds name value then changed else changed.insert (r.key.fieldKey name))

/-- Takes the fields of another record over, and says which field keys changed. -/
def mergeWith (r other : Record) : Record × KeySet := r.mergeFields other.fields

@[simp] theorem key_setField (r : Record) (name : String) (value : FieldValue) :
    (r.setField name value).key = r.key := rfl

@[simp] theorem key_mergeField (r : Record) (name : String) (value : FieldValue) :
    (r.mergeField name value).key = r.key := by
  simp only [mergeField]
  split <;> rfl

@[simp] theorem key_mergeFields (r : Record) (fields : List (String × FieldValue)) :
    (r.mergeFields fields).1.key = r.key := by
  induction fields generalizing r with
  | nil => rfl
  | cons f fs ih => simp [mergeFields, ih]

@[simp] theorem key_mergeWith (r other : Record) : (r.mergeWith other).1.key = r.key :=
  key_mergeFields r other.fields

theorem field?_setField_self (r : Record) (name : String) (value : FieldValue) :
    (r.setField name value).field? name = some value := by
  simp [setField, field?]

theorem field?_setField_of_ne (r : Record) {name other : String} (value : FieldValue)
    (h : other ≠ name) : (r.setField name value).field? other = r.field? other := by
  simp [setField, field?, Assoc.get?_insert_of_ne _ _ h]

theorem mem_fieldKeys {r : Record} {k : String} :
    k ∈ r.fieldKeys ↔ ∃ name ∈ Assoc.keys r.fields, k = r.key.fieldKey name := by
  simp [fieldKeys, eq_comm]

end Record

end GraphClient
