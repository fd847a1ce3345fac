import GraphClient.Digest.Md5
import GraphClient.Json.Printer
import GraphClient.Pipeline.Request

/-!
# Requests to the server

An operation is posted as a JSON object of its document, or of its identifier, and of its variables.
Line breaks are left out of the document. The requests of queries carry the headers of an HTTP cache
policy: the one that was given, else the one that the cache control implies. The cache key is the MD5
digest of the body.
-/

namespace GraphClient.Pipeline

structure ServerSettings where
  /-- The URL of the endpoint, with its fragment. -/
  url : String
  sendIdentifiers : Bool := false

namespace ServerStage

/-- The document without its line breaks. -/
def queryText (document : String) : String := String.ofList (document.toList.filter (· ≠ '\n'))

def requestBody (operation : Operation) (sendIdentifiers : Bool) : String :=
  let subject := if sendIdentifiers then ("id", Json.string operation.id)
    else ("query", Json.string (queryText operation.document))
  (Json.object [subject, ("variables", .object operation.vars)]).toText

/-- The key under which an HTTP cache stores the response to a body. -/
def cacheKey (body : String) : String := Digest.Md5.hexDigest body.toUTF8.toList

def maxUriSize : Nat := 65534

/-- Whether a character may stand in the authority of a URI. -/
def isAuthorityChar (c : Char) : Bool := c ∉ ['\x22', '\x60', '{', '}']

/-- The characters between the two slashes of a URL and the next. -/
def authority (url : String) : List Char :=
  (((url.toList.dropWhile (· ≠ '/')).drop 2).takeWhile (· ≠ '/'))

/-- The URI that a URL is requested under: the URL without its fragment, or why it is none. -/
def requestUri (url : String) : Except Failure String :=
  if maxUriSize < url.utf8ByteSize then .error (.network "invalid request: uri too long")
  else if (authority url).all isAuthorityChar then
    .ok (String.ofList (url.toList.takeWhile (· ≠ '#')))
  else .error (.network "invalid request: invalid uri character")

/-- The headers of every request. -/
def baseHeaders : Http.Headers :=
  [("accept", "application/json"), ("content-type", "application/json")]

def policyOf? (request : Request) : Option HttpCachePolicy :=
  if request.operation.isQuery then
    request.httpPolicy.orElse fun _ => HttpCachePolicy.ofControl? request.control
  else none

def httpRequest (settings : ServerSettings) (request : Request) : Except Failure Http.Request := do
  let body := requestBody request.operation settings.sendIdentifiers
  let uri ← requestUri settings.url
  match policyOf? request with
  | none => pure ⟨"POST", uri, baseHeaders, body⟩
  | some policy =>
    match policy.headers? (cacheKey body) with
    | some headers => pure ⟨"POST", uri, baseHeaders ++ headers, body⟩
    | none => throw (.network "invalid request: failed to parse header value")

end ServerStage

end GraphClient.Pipeline
