import GraphClient.Failure
import GraphClient.Http.Message
import GraphClient.Operation
import GraphClient.Policy.Directive
import GraphClient.Policy.HttpCache
import GraphClient.Response.Basic

/-!
# What goes down the pipeline and what comes back up

An operation goes down with how it is to be served; a `Reply` comes back up, or a failure. A reply
has parts only as far as they came about: the HTTP response if the network was asked, the response if
one was parsed or read, and the records that were parsed from it or that it was read from.

Whether the operation is canceled is not part of the request: the token belongs to the execution that
the request is for (`Execution`), and the stages of this library are told of it where they ask.
-/

namespace GraphClient.Pipeline

structure Request where
  operation : Operation
  control : CacheControl := default
  directives : Directives := .none
  httpPolicy : Option HttpCachePolicy := none

structure Reply where
  http : Option Http.Response := none
  response : Option (Response Json) := none
  records : Option (List Record) := none

abbrev Outcome := Except Failure Reply

end GraphClient.Pipeline
