import GraphClient.Pipeline.Request
import GraphClient.Response.Envelope

/-!
# Parsing HTTP responses

An HTTP response of success is read as a response, and its data is taken apart into records; the
response then depends on every field that was written. A reply without an HTTP response was made
without the network and passes unchanged.
-/

namespace GraphClient.Pipeline.ParseStage

def parseHttp (resolver : KeyResolver) (operation : Operation) (http : Http.Response) :
    Except Failure (Response Json × List Record) := do
  if !Http.isSuccess http.status then throw (.http http.status http.body)
  let response ← (Response.ofBytes http.body).mapError .malformed
  match response.data with
  | some (.object data) => do
    let normalized ← (normalize resolver operation.vars operation.rootKey operation.selections
      data).mapError fun mismatch => .malformed (.unfitData mismatch)
    pure ({ response with dependentKeys := normalized.dependentKeys },
      Assoc.values normalized.records)
  | _ => pure (response, [])

/-- The outcome of the stage by that of the stage below. -/
def settle (resolver : KeyResolver) (operation : Operation) (outcome : Outcome) : Outcome := do
  let reply ← outcome
  match reply.http with
  | none => pure reply
  | some http => do
    let (response, records) ← parseHttp resolver operation http
    pure { http := some http, response := some response, records := some records }

end GraphClient.Pipeline.ParseStage
