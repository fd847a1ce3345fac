import GraphClient.Http.Status
import GraphClient.Normalization

/-!
# Why an execution fails

Every execution ends with a response or with one `Failure`. A malformed response says what was wrong
with it: its text, its outermost shape, or data that does not fit the selections.
-/

namespace GraphClient

inductive Malformation where
  | invalidJson
  | notAnObject
  | dataNotAnObject
  | neitherDataNorErrors
  | invalidErrors
  /-- The data does not fit the selections. -/
  | unfitData (mismatch : ShapeMismatch)
  /-- The data does not decode into the type of the caller. -/
  | undecodableData
  | other (reason : String)
deriving DecidableEq, Repr

def Malformation.reason : Malformation → String
  | invalidJson => "invalid JSON"
  | notAnObject => "response is not an object"
  | dataNotAnObject => "'data' is not an object"
  | neitherDataNorErrors => "response carries neither 'data' nor 'errors'"
  | invalidErrors => "invalid 'errors'"
  | unfitData mismatch => "could not normalize response: " ++ mismatch.message
  | undecodableData => "could not decode data"
  | other reason => reason

inductive Failure where
  | network (reason : String)
  /-- The server answered with a status that is no success. -/
  | http (status : Nat) (body : ByteArray)
  | malformed (malformation : Malformation)
  | canceled
  | interceptor (reason : String)

namespace Failure

instance : Inhabited Failure := ⟨canceled⟩

def message : Failure → String
  | network reason => "network request failed: " ++ reason
  | http status _ => "HTTP request failed with status " ++ Http.statusLine status
  | malformed malformation => "response was malformed: " ++ malformation.reason
  | canceled => "operation was canceled"
  | interceptor reason => "interceptor failed: " ++ reason

def isCanceled : Failure → Bool
  | canceled => true
  | _ => false

end Failure

end GraphClient
