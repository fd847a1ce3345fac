import GraphClient.Http.Transport
import GraphClient.Json.Reader

/-!
# A transport with prepared answers

A `Script` lists answers by the operation that a request asks for. They are given in their order, and
the last one again and again. A request that the script does not know fails.
-/

namespace GraphClient.Http

/-- Answers by the document or the identifier in the body of a request. -/
abbrev Script := Assoc String (List Exchange)

namespace Script

/-- The document, else the identifier, that the body of a request asks for. -/
def subject? (body : String) : Option String := do
  let members ← (← Json.parse? body).asObject?
  let member (name : String) : Option String := (Assoc.get? members name).bind Json.asString?
  (member "query").orElse fun _ => member "id"

def unknown : Exchange := { result := .error "no scripted response" }

def next (script : Script) (subject : String) : Exchange × Script :=
  match Assoc.get? script subject with
  | none | some [] => (unknown, script)
  | some [last] => (last, script)
  | some (exchange :: rest) => (exchange, Assoc.insert script subject rest)

def answer (request : Request) (script : Script) : Exchange × Script :=
  match subject? request.body with
  | none => (unknown, script)
  | some subject => script.next subject

end Script

def Transport.scripted : Transport Script := ⟨Script.answer⟩

end GraphClient.Http
