import GraphClient.Http.Message

/-!
# Transports

A transport answers requests. What it remembers from one request to the next is a value of type `τ`,
so a transport is a pure function. An answer may be held back behind a gate: it is fixed when the
request is sent, and arrives when the gate is open.
-/

namespace GraphClient.Http

structure Exchange where
  result : Except String Response
  gate : Option String := none

structure Transport (τ : Type) where
  /-- Sends a request: what comes of it, and what is remembered. -/
  send : Request → τ → Exchange × τ

end GraphClient.Http
