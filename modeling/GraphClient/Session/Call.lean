import GraphClient.Operation
import GraphClient.Pipeline.Request
import GraphClient.Session.Token

/-!
# Calls

A call executes one operation at most once. What it does is fixed by its options, which may be
replaced until it starts. A call goes from not executed through executing to completed; once it is
canceled it stays canceled, whatever it had reached.
-/

namespace GraphClient

structure CallOptions where
  operation : Operation
  control : CacheControl := default
  directives : Directives := .none
  httpPolicy : Option HttpCachePolicy := none
  /-- Operations to be fetched from the network again once the call has succeeded. -/
  refetchOperations : List Operation := []
  /-- The names of operations whose watchers are to fetch again once the call has succeeded. -/
  refetchNames : List String := []

namespace CallOptions

def request (options : CallOptions) : Pipeline.Request :=
  { operation := options.operation, control := options.control,
    directives := options.directives, httpPolicy := options.httpPolicy }

def refetches (options : CallOptions) : Bool :=
  !options.refetchOperations.isEmpty || !options.refetchNames.isEmpty

end CallOptions

/-- Options to be replaced; what is absent stays. -/
structure CallOverrides where
  control : Option CacheControl := none
  directives : Option Directives := none
  httpPolicy : Option HttpCachePolicy := none
  refetchOperations : Option (List Operation) := none
  refetchNames : Option (List String) := none

namespace CallOverrides

def isEmpty (o : CallOverrides) : Bool :=
  o.control.isNone && o.directives.isNone && o.httpPolicy.isNone && o.refetchOperations.isNone
    && o.refetchNames.isNone

def apply (o : CallOverrides) (options : CallOptions) : CallOptions :=
  { options with
    control := o.control.getD options.control
    directives := o.directives.getD options.directives
    httpPolicy := o.httpPolicy.orElse fun _ => options.httpPolicy
    refetchOperations := o.refetchOperations.getD options.refetchOperations
    refetchNames := o.refetchNames.getD options.refetchNames }

end CallOverrides

/-- A use of a call or a watcher that is never right. -/
inductive Misuse where
  | alreadyExecuted
  | notAQuery
deriving DecidableEq, Repr

def Misuse.message : Misuse → String
  | alreadyExecuted => "already executed"
  | notAQuery => "only queries can be watched"

inductive ExecutionState where
  | notExecuted
  | executing
  | completed
  | canceled
deriving DecidableEq, Repr

def ExecutionState.display : ExecutionState → String
  | notExecuted => "NotExecuted"
  | executing => "Executing"
  | completed => "Completed"
  | canceled => "Canceled"

structure CallId where
  number : Nat
deriving DecidableEq, Repr

/-- A call whose data decodes into `α`. -/
structure Call (α : Type) where
  options : CallOptions
  decoder : Json → Option α
  token : Token
  executed : Bool := false
  completed : Bool := false
  /-- The token of the fetches that the call started once it had succeeded. -/
  refetchToken : Option Token := none

namespace Call

variable {α : Type}

/-- Marks a call as started, unless it was started before. -/
def start (call : Call α) : Except Misuse (Call α) :=
  if call.executed then .error .alreadyExecuted else .ok { call with executed := true }

/-- Replaces options of a call that was not started. -/
def override (call : Call α) (overrides : CallOverrides) : Except Misuse (Call α) :=
  if overrides.isEmpty then .ok call
  else if call.executed then .error .alreadyExecuted
  else .ok { call with options := overrides.apply call.options }

def state (call : Call α) (tokens : Tokens) : ExecutionState :=
  if tokens.isCanceled call.token then .canceled
  else if call.completed then .completed
  else if call.executed then .executing
  else .notExecuted

def cancel (call : Call α) (tokens : Tokens) : Tokens :=
  let tokens := tokens.cancel call.token
  match call.refetchToken with
  | none => tokens
  | some token => tokens.cancel token

theorem start_of_executed {call : Call α} (h : call.executed = true) :
    call.start = .error .alreadyExecuted := by
  simp [start, h]

end Call

end GraphClient
