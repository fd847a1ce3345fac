import GraphClient.Pipeline.Request

/-!
# Stages of the application

An interceptor stands above the stages of this library. It lets a request pass, changed or not, or
answers it on its own; on the way up it may change the outcome of what it let pass. The first
interceptor is the outermost. An interceptor with a name has what passes through it recorded.

An interceptor is a function of what it is given, and is done at once: it remembers nothing from one
request to the next, sends nothing down a second time, waits for nothing, and does not look whether
the operation is canceled. Interceptors that do any of this are not covered here.
-/

namespace GraphClient.Pipeline

inductive Passage where
  | forward (request : Request)
  | answer (outcome : Outcome)

structure Interceptor where
  /-- The name under which what passes is recorded. -/
  name : Option String := none
  enter : Request → Passage := .forward
  leave : Outcome → Outcome := id

namespace Interceptor

/-- Lets everything pass, and records it. -/
def recording (name : String) : Interceptor := { name := some name }

def overriding (control : CacheControl) : Interceptor :=
  { enter := fun request => .forward { request with control := control } }

/-- Answers every request with this outcome. -/
def answering (outcome : Outcome) : Interceptor := { enter := fun _ => .answer outcome }

end Interceptor

inductive Crossing where
  | down (name : String) (operation : String)
  | up (name : String) (outcome : Outcome)

/-- The crossing of an interceptor on the way down, if it has a name. -/
def Interceptor.crossDown (i : Interceptor) (request : Request) : List Crossing :=
  match i.name with
  | none => []
  | some name => [.down name request.operation.name]

/-- The crossing of an interceptor on the way up, if it has a name. -/
def Interceptor.crossUp (i : Interceptor) (outcome : Outcome) : List Crossing :=
  match i.name with
  | none => []
  | some name => [.up name outcome]

/-- A request that has gone down as far as it goes. -/
structure Descent where
  passage : Passage
  /-- The interceptors that let it pass, the innermost first. -/
  passed : List Interceptor
  crossings : List Crossing

/-- Sends a request down through interceptors, after it has passed those of `passed`. -/
def descend (passed : List Interceptor) : List Interceptor → Request → Descent
  | [], request => ⟨.forward request, passed, []⟩
  | i :: rest, request =>
    match i.enter request with
    | .answer outcome => ⟨.answer outcome, passed, i.crossDown request⟩
    | .forward inner =>
      let below := descend (i :: passed) rest inner
      { below with crossings := i.crossDown request ++ below.crossings }

/-- Brings an outcome up through the interceptors that it passed, the innermost first. -/
def ascend : List Interceptor → Outcome → Outcome × List Crossing
  | [], outcome => (outcome, [])
  | i :: rest, outcome =>
    let (top, crossings) := ascend rest (i.leave outcome)
    (top, i.crossUp (i.leave outcome) ++ crossings)

end GraphClient.Pipeline
