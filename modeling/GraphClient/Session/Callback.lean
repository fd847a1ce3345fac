import GraphClient.Failure
import GraphClient.Response.Basic

/-!
# Handing an outcome to a callback

A callback has a hook for responses, one for failures, and one for each kind of failure that it may
treat on its own. A hook that a callback does not define falls back to the one for failures. Exactly
one hook is called per outcome.
-/

namespace GraphClient

abbrev Ending (α : Type) := Except Failure (Response α)

inductive Hook where
  | response
  | failure
  | httpError
  | networkError
  | parseError
  | canceledError
deriving DecidableEq, Repr

namespace Hook

def name : Hook → String
  | response => "on_response"
  | failure => "on_failure"
  | httpError => "on_http_error"
  | networkError => "on_network_error"
  | parseError => "on_parse_error"
  | canceledError => "on_canceled_error"

def ofEnding {α : Type} : Ending α → Hook
  | .ok _ => response
  | .error .canceled => canceledError
  | .error (.http _ _) => httpError
  | .error (.network _) => networkError
  | .error (.malformed _) => parseError
  | .error (.interceptor _) => failure

/-- Whether a callback may leave the hook out. -/
def isOptional : Hook → Bool
  | response | failure => false
  | _ => true

/-- The hook that is called on a callback that defines these of the optional hooks. -/
def called (defined : Hook → Bool) (hook : Hook) : Hook :=
  if hook.isOptional && !defined hook then failure else hook

end Hook

end GraphClient
