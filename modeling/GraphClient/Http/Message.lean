import GraphClient.Assoc

/-!
# HTTP messages

Requests and responses as far as this library looks at them. The value of a header may hold any
character but controls; a tab is allowed.
-/

namespace GraphClient.Http

/-- Header fields by their lower-case names; each name has one value. -/
abbrev Headers := Assoc String String

def isHeaderChar (c : Char) : Bool := (0x20 ≤ c.toNat && c.toNat ≠ 0x7f) || c = '\t'

/-- Whether a string may be the value of a header. -/
def isHeaderValue (value : String) : Bool := value.toList.all isHeaderChar

structure Request where
  method : String
  uri : String
  headers : Headers
  body : String

structure Response where
  status : Nat
  body : ByteArray

end GraphClient.Http
