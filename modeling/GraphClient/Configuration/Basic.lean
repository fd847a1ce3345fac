import GraphClient.Json.Printer
import GraphClient.Policy.Control
import GraphClient.Storage.Bounded
import GraphClient.Url.Basic

/-!
# Configurations

A configuration says which server is asked, how operations are sent to it and how they are cached. A
valid one has a server that speaks HTTP, and a cache that has room for a record.
-/

namespace GraphClient

structure CacheConfiguration where
  /-- The cache control of queries that ask for no other. -/
  defaultControl : CacheControl := default
  /-- The bounds of the cache; there are none when absent. -/
  eviction : Option EvictionPolicy := none
deriving DecidableEq

structure Configuration where
  /-- The endpoint to which every operation is posted. -/
  serverUrl : Url
  sendOperationIdentifiers : Bool := false
  cache : CacheConfiguration := {}
deriving DecidableEq

inductive ConfigurationError where
  | unsupportedScheme (url : Url)
  | noCapacity
  | unreadable
deriving DecidableEq

def ConfigurationError.message : ConfigurationError → String
  | unsupportedScheme url => "server_url must use http or https: " ++ url.toText
  | noCapacity => "cache.eviction.max_entries must be greater than 0: 0"
  | unreadable => "could not deserialize configuration"

namespace Configuration

def validate (c : Configuration) : Except ConfigurationError Configuration :=
  if c.serverUrl.scheme ≠ "http" ∧ c.serverUrl.scheme ≠ "https" then
    .error (.unsupportedScheme c.serverUrl)
  else if c.cache.eviction.any fun policy => policy.maxEntries = 0 then .error .noCapacity
  else .ok c

/-- A duration as a text, or `null`. -/
def durationToJson (d : Option Duration) : Json :=
  (d.map fun d => Json.string d.render).getD .null

def evictionToJson (policy : EvictionPolicy) : Json :=
  .object [("max_entries", .ofInt policy.maxEntries),
    ("expire_after_write", durationToJson policy.expireAfterWrite),
    ("expire_after_access", durationToJson policy.expireAfterAccess)]

def toJson (c : Configuration) : Json :=
  .object [("server_url", .string c.serverUrl.toText),
    ("send_operation_identifiers", .bool c.sendOperationIdentifiers),
    ("cache", .object [("default_control", .string c.cache.defaultControl.name),
      ("eviction", (c.cache.eviction.map evictionToJson).getD .null)])]

end Configuration

end GraphClient
