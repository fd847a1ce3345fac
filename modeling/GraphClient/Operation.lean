import GraphClient.Digest.Sha256
import GraphClient.Record.Basic
import GraphClient.Selection.Basic

/-!
# Operations

An operation is a query or a mutation: its document, the values of its variables and its selections.
The fields of each kind of operation hang on a root record of their own. An operation is identified
to a server by the SHA-256 digest of its document, unless it was given an identifier.
-/

namespace GraphClient

inductive OperationKind where
  | query
  | mutation
deriving DecidableEq, Repr

namespace OperationKind

def rootKey : OperationKind → RecordKey
  | query => .queryRoot
  | mutation => .mutationRoot

def name : OperationKind → String
  | query => "query"
  | mutation => "mutation"

def display : OperationKind → String
  | query => "Query"
  | mutation => "Mutation"

def ofName? (text : String) : Option OperationKind :=
  [query, mutation].find? fun kind => kind.name = text

theorem ofName?_name (kind : OperationKind) : ofName? kind.name = some kind := by
  cases kind <;> decide

end OperationKind

/-- The identifier of an operation that was given none. -/
def documentDigest (document : String) : String := Digest.Sha256.hexDigest document.toUTF8.toList

/-- An operation that can be sent to a server and answered from the cache. -/
structure Operation where
  kind : OperationKind := .query
  name : String
  document : String
  id : String := documentDigest document
  vars : Json.Object := []
  selections : List Selection := []

namespace Operation

def rootKey (operation : Operation) : RecordKey := operation.kind.rootKey

def isQuery (operation : Operation) : Bool := operation.kind = .query

end Operation

end GraphClient
