import GraphClient.Json.Printer
import GraphClient.KeySet

/-!
# Responses

A response carries data, errors or both. The type of the data is a parameter: data is JSON as it is
received or read, and becomes a type of the caller by decoding.
-/

namespace GraphClient

structure Location where
  line : Nat
  column : Nat
deriving DecidableEq, Repr

structure ResponseError where
  message : String := ""
  locations : List Location := []
  extensions : Json.Object := []

namespace ResponseError

/-- Equality up to the order of the keys of extensions. -/
def equal (a b : ResponseError) : Bool :=
  a.message == b.message && a.locations == b.locations
    && Json.object a.extensions == Json.object b.extensions

instance : BEq ResponseError := ⟨equal⟩

def locationToJson (l : Location) : Json :=
  .object [("line", .ofInt l.line), ("column", .ofInt l.column)]

/-- The error as an object; empty locations and extensions are left out. -/
def toJson (e : ResponseError) : Json :=
  let locations := if e.locations.isEmpty then []
    else [("locations", Json.array (e.locations.map locationToJson))]
  let extensions := if e.extensions.isEmpty then [] else [("extensions", Json.object e.extensions)]
  .object (("message", .string e.message) :: (locations ++ extensions))

end ResponseError

structure Response (α : Type) where
  /-- The data; a miss of the cache has none. -/
  data : Option α := none
  errors : List ResponseError := []
  fromCache : Bool := false
  /-- The field keys that were touched while the response was produced. -/
  dependentKeys : KeySet := ∅

namespace Response

instance {α : Type} : Inhabited (Response α) := ⟨{}⟩

def hasErrors {α : Type} (r : Response α) : Bool := !r.errors.isEmpty

/-- The answer of the cache to an operation that it cannot answer. -/
def cacheMiss {α : Type} : Response α := { fromCache := true }

/-- What a watcher compares: the data and the errors. -/
abbrev Content (α : Type) := Option α × List ResponseError

def content {α : Type} (r : Response α) : Content α := (r.data, r.errors)

end Response

end GraphClient
