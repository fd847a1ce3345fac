import GraphClient.Duration
import GraphClient.Http.Message
import GraphClient.Policy.Control

/-!
# Directives for an HTTP cache below the client

The client keeps no raw responses itself. It only tags the requests of queries with headers that a
cache in the transport can act on: a key of the request, a strategy, how long a response stays fresh
in milliseconds (0 for without bound), and whether a response is dropped once it was served.
-/

namespace GraphClient

inductive FetchStrategy where
  | cacheOnly
  | networkOnly
  | cacheFirst
  | networkFirst
deriving DecidableEq, Repr

namespace FetchStrategy

def name : FetchStrategy → String
  | cacheOnly => "CACHE_ONLY"
  | networkOnly => "NETWORK_ONLY"
  | cacheFirst => "CACHE_FIRST"
  | networkFirst => "NETWORK_FIRST"

def ofName? (text : String) : Option FetchStrategy :=
  [cacheOnly, networkOnly, cacheFirst, networkFirst].find? fun strategy => strategy.name = text

end FetchStrategy

structure HttpCachePolicy where
  strategy : FetchStrategy
  /-- How long a cached response stays fresh; without bound when absent. -/
  expireTimeout : Option Duration := none
  /-- Drop the cached response once it has been served. -/
  expireAfterRead : Bool := false
deriving DecidableEq, Repr

namespace HttpCachePolicy

/-- The policy that a cache control implies when none is given. -/
def ofControl? : CacheControl → Option HttpCachePolicy
  | .networkBeforeStale => some { strategy := .networkFirst }
  | .expireAfterRead => some { strategy := .cacheFirst, expireAfterRead := true }
  | _ => none

/-- The headers for a request with a key, none if the key cannot be the value of a header. -/
def headers? (policy : HttpCachePolicy) (cacheKey : String) : Option Http.Headers :=
  if Http.isHeaderValue cacheKey then
    let timeout := (policy.expireTimeout.map Duration.milliseconds).getD 0
    some [
      ("x-apollo-cache-key", cacheKey),
      ("x-apollo-cache-fetch-strategy", policy.strategy.name),
      ("x-apollo-expire-timeout", String.ofList (Nat.toDigits 10 timeout)),
      ("x-apollo-expire-after-read", if policy.expireAfterRead then "true" else "false"),
      ("x-apollo-prefetch", "false")]
  else none

end HttpCachePolicy

end GraphClient
