import GraphClient.Failure
import GraphClient.Json.Reader
import GraphClient.Response.Basic

/-!
# The text of a response

The body of a response is a JSON object with `data`, `errors` or both; either may be `null`. Only this
outermost shape and the list of errors are checked here: the data is checked when it is taken apart.

A structure may be written as an object or as an array of its fields in order. In an object unknown
members are passed over. The members of an error may be absent but not `null`; both numbers of a
location must be there and fit into 32 bits.
-/

namespace GraphClient

namespace Json

/-- The value of an integer that fits into 32 bits without a sign. -/
def asUInt32? : Json → Option Nat
  | number (.integer value) => if 0 ≤ value ∧ value.toNat < Nat.pow 2 32 then some value.toNat
    else none
  | _ => none

/-- The items of an array, each decoded. -/
def asListOf? {α : Type} (item : Json → Option α) : Json → Option (List α)
  | array items => items.mapM item
  | _ => none

/-- A member that may be absent, decoded, or its default. -/
def member? {α : Type} (members : Object) (name : String) (fallback : α) (decode : Json → Option α) :
    Option α :=
  match Assoc.get? members name with
  | none => some fallback
  | some value => decode value

end Json

namespace ResponseError

/-- The location of two numbers. -/
def location? (line column : Json) : Option Location := do
  let line ← line.asUInt32?
  let column ← column.asUInt32?
  pure ⟨line, column⟩

/-- The location of an object or of an array. -/
def locationOfJson? : Json → Option Location
  | .object members => do
    let line ← Assoc.get? members "line"
    let column ← Assoc.get? members "column"
    location? line column
  | .array [line, column] => location? line column
  | _ => none

def locationsOfJson? : Json → Option (List Location) := Json.asListOf? locationOfJson?

/-- The error of an object or of an array. -/
def ofJson? : Json → Option ResponseError
  | .object members => do
    let message ← Json.member? members "message" "" Json.asString?
    let locations ← Json.member? members "locations" [] locationsOfJson?
    let extensions ← Json.member? members "extensions" [] Json.asObject?
    pure ⟨message, locations, extensions⟩
  | .array [] => some {}
  | .array [message] => do
    pure { message := ← message.asString? }
  | .array [message, locations] => do
    pure { message := ← message.asString?, locations := ← locationsOfJson? locations }
  | .array [message, locations, extensions] => do
    pure ⟨← message.asString?, ← locationsOfJson? locations, ← extensions.asObject?⟩
  | _ => none

def listOfJson? : Json → Option (List ResponseError) := Json.asListOf? ofJson?

end ResponseError

namespace Response

/-- The data of a response object: absent and `null` are no data. -/
def dataOf (members : Json.Object) : Except Malformation (Option Json) :=
  match Assoc.get? members "data" with
  | none | some .null => .ok none
  | some (.object data) => .ok (some (.object data))
  | some _ => .error .dataNotAnObject

/-- The errors of a response object: absent and `null` are no list. -/
def errorsOf (members : Json.Object) : Except Malformation (Option (List ResponseError)) :=
  match Assoc.get? members "errors" with
  | none | some .null => .ok none
  | some errors =>
    match ResponseError.listOfJson? errors with
    | some errors => .ok (some errors)
    | none => .error .invalidErrors

def ofJson : Json → Except Malformation (Response Json)
  | .object members => do
    let data ← dataOf members
    let errors ← errorsOf members
    if !Assoc.contains members "data" && errors.isNone then throw .neitherDataNorErrors
    pure { data := data, errors := errors.getD [] }
  | _ => .error .notAnObject

def ofBytes (body : ByteArray) : Except Malformation (Response Json) :=
  match Json.parseBytes? body with
  | some value => ofJson value
  | none => .error .invalidJson

/-- The response with its data decoded into a type of the caller. -/
def decode {α : Type} (decoder : Json → Option α) (r : Response Json) :
    Except Failure (Response α) :=
  match r.data with
  | none => .ok { data := none, errors := r.errors, fromCache := r.fromCache,
                  dependentKeys := r.dependentKeys }
  | some data =>
    match decoder data with
    | some value => .ok { data := some value, errors := r.errors, fromCache := r.fromCache,
                          dependentKeys := r.dependentKeys }
    | none => .error (.malformed .undecodableData)

end Response

end GraphClient
