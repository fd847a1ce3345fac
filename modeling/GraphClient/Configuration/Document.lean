import GraphClient.Configuration.Basic
import GraphClient.Yaml.Resolution

/-!
# Configurations in YAML

A configuration is written as a YAML document whose fields are those of the configuration. Unknown
and repeated fields are errors, and a server is the only field that must be there.
-/

namespace GraphClient

open Yaml

def Duration.ofNode? (node : Node) : Option Duration := node.text?.bind Duration.parse?

def EvictionPolicy.ofNode? (node : Node) : Option EvictionPolicy := do
  let fields ← node.fields? ["max_entries", "expire_after_write", "expire_after_access"]
  let duration? := Node.option? Duration.ofNode?
  pure {
    maxEntries := ← required? fields "max_entries" Node.nat64?
    expireAfterWrite := ← optional? fields "expire_after_write" duration? none
    expireAfterAccess := ← optional? fields "expire_after_access" duration? none }

def CacheConfiguration.ofNode? (node : Node) : Option CacheConfiguration := do
  let fields ← node.fields? ["default_control", "eviction"]
  pure {
    defaultControl := ← optional? fields "default_control" (Node.choice? CacheControl.ofName?) default
    eviction := ← optional? fields "eviction" (Node.option? EvictionPolicy.ofNode?) none }

namespace Configuration

def ofNode? (node : Node) : Option Configuration := do
  let fields ← node.fields? ["server_url", "send_operation_identifiers", "cache"]
  pure {
    serverUrl := ← required? fields "server_url" fun node => node.text?.bind Url.parse?
    sendOperationIdentifiers := ← optional? fields "send_operation_identifiers" Node.bool? false
    cache := ← optional? fields "cache" CacheConfiguration.ofNode? {} }

def parse (text : String) : Except ConfigurationError Configuration :=
  match (Node.parse? text).bind ofNode? with
  | some c => c.validate
  | none => .error .unreadable

end Configuration

end GraphClient
