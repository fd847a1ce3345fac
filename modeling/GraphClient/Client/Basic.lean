import GraphClient.Configuration.Basic
import GraphClient.Http.Transport
import GraphClient.Pipeline.Interceptor
import GraphClient.Pipeline.ServerStage

/-!
# Clients

A `Client` is what stays the same while it is used: how and where requests are sent, what stages of
the application they pass, and how queries are cached that ask for nothing else.
-/

namespace GraphClient

structure Client (τ : Type) where
  server : Pipeline.ServerSettings
  /-- The cache control of queries that ask for no other. -/
  defaultControl : CacheControl := default
  /-- The stages of the application, the outermost first. -/
  interceptors : List Pipeline.Interceptor := []
  transport : Http.Transport τ

namespace Client

def ofConfiguration {τ : Type} (c : Configuration) (interceptors : List Pipeline.Interceptor)
    (transport : Http.Transport τ) : Client τ :=
  { server := { url := c.serverUrl.toText, sendIdentifiers := c.sendOperationIdentifiers }
    defaultControl := c.cache.defaultControl
    interceptors := interceptors
    transport := transport }

end Client

end GraphClient
