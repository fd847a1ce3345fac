import GraphClient.Json.Printer
import GraphClient.Json.Reader
import GraphClient.Record.Basic

/-!
# The JSON form of a record

A record is written as an object of its `key` and its `fields`, and a field value as an object of one
member that names the kind of value: `scalar`, `reference` or `list`. What a scalar holds is written
as it is, so a scalar that looks like a tagged value is still told apart by the tag around it.

Reading takes either the object, in which other members than the two are passed over, or an array of
the key and the fields. A repeated `key` or `fields` is refused; a repeated field takes its last
value.
-/

namespace GraphClient

namespace FieldValue

mutual

def toJson : FieldValue → Json
  | scalar value => .object [("scalar", value)]
  | reference key => .object [("reference", .string key.text)]
  | list items => .object [("list", .array (toJsonItems items))]

def toJsonItems : List FieldValue → List Json
  | [] => []
  | x :: xs => toJson x :: toJsonItems xs

end

mutual

/-- The value of an object of one tag. -/
def ofJson? : Json → Option FieldValue
  | .object [(tag, .array items)] =>
    if tag = "list" then (ofJsonItems? items).map list
    else if tag = "scalar" then some (scalar (Json.array items).collapse)
    else none
  | .object [(tag, payload)] =>
    if tag = "scalar" then some (scalar payload.collapse)
    else if tag = "reference" then payload.asString?.map fun text => reference ⟨text⟩
    else none
  | _ => none

/-- The values of the items of a list, none if one of them is no tagged value. -/
def ofJsonItems? : List Json → Option (List FieldValue)
  | [] => some []
  | x :: xs =>
    match ofJson? x, ofJsonItems? xs with
    | some value, some values => some (value :: values)
    | _, _ => none

end

end FieldValue

namespace Record

def fieldsToJson (fields : Assoc String FieldValue) : Json :=
  .object (fields.map fun f => (f.1, f.2.toJson))

/-- The record as an object of its key and its fields. -/
def toJson (r : Record) : Json :=
  .object [("key", .string r.key.text), ("fields", fieldsToJson r.fields)]

/-- Every member decoded, repeated names kept. -/
def fieldEntries? : List (String × Json) → Option (List (String × FieldValue))
  | [] => some []
  | (name, value) :: members =>
    match FieldValue.ofJson? value, fieldEntries? members with
    | some value, some fields => some ((name, value) :: fields)
    | _, _ => none

def fieldsOfJson? : Json → Option (Assoc String FieldValue)
  | .object members => (fieldEntries? members).map Assoc.ofEntries
  | _ => none

def ofParts? (key fields : Json) : Option Record :=
  match key, fieldsOfJson? fields with
  | .string text, some fields => some ⟨⟨text⟩, fields⟩
  | _, _ => none

/-- The values of the members of one key. -/
def valuesOf (name : String) (members : List (String × Json)) : List Json :=
  (members.filter fun m => m.1 = name).map Prod.snd

def ofJson? : Json → Option Record
  | .object members =>
    match valuesOf "key" members, valuesOf "fields" members with
    | [key], [fields] => ofParts? key fields
    | _, _ => none
  | .array [key, fields] => ofParts? key fields
  | _ => none

/-- A member of the outermost object: only the values of the two members of a record are read, of
any other the shape alone is looked at. -/
def knownMember (cs : List Char) : Option ((String × Json) × List Char) := do
  let (name, cs) ← Json.Reader.quoted cs
  let cs ← Json.Reader.expect [':'] (Json.Reader.skipBlanks cs)
  let cs := Json.Reader.skipBlanks cs
  if name = "key" ∨ name = "fields" then
    let (value, cs) ← Json.Reader.value (Json.maxDepth - 1) cs
    pure ((name, value), cs)
  else
    let (_, cs) ← Json.Reader.skipValue cs.length cs
    pure ((name, .null), cs)

def document? (text : String) : Option Json :=
  Json.Reader.whole?
    (fun cs => match cs with
      | '{' :: rest =>
        (Json.Reader.enclosed '}' knownMember rest).map fun (members, cs) =>
          (.object members, cs)
      | cs => Json.Reader.value Json.maxDepth cs)
    text

def parse? (text : String) : Option Record := (document? text).bind ofJson?

end Record

end GraphClient
