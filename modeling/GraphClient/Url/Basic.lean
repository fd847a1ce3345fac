import GraphClient.Url.Host

/-!
# URLs

A URL is read leniently and printed in one normal form: scheme and domain in lower case, the default
port of the scheme left out, dots in the path resolved, and what may not stand for itself
percent-encoded. The special schemes always have a host and a path, and take a backslash for a slash.

The path of a URL is a list of segments, or a text of its own when no slash follows the scheme.
-/

namespace GraphClient

namespace Url

inductive Path where
  | segments (names : List String)
  | verbatim (text : String)
deriving DecidableEq, Repr

/-- Who is asked where. -/
structure Authority where
  username : String := ""
  password : String := ""
  host : Host
  port : Option Nat := none
deriving DecidableEq, Repr

end Url

structure Url where
  scheme : String
  authority : Option Url.Authority
  path : Url.Path
  query : Option String := none
  fragment : Option String := none
deriving DecidableEq, Repr

namespace Url

/-! ## Reading -/

/-- The schemes with a host and a path, and their default ports. -/
def specialSchemes : List (String × Option Nat) :=
  [("http", some 80), ("https", some 443), ("ws", some 80), ("wss", some 443), ("ftp", some 21),
    ("file", none)]

def isSpecial (scheme : String) : Bool := (specialSchemes.lookup scheme).isSome

def defaultPort? (scheme : String) : Option Nat := (specialSchemes.lookup scheme).getD none

def isSlash (special : Bool) (c : Char) : Bool := c = '/' || (special && c = '\\')

def endsPath (c : Char) : Bool := c = '?' || c = '#'

def endsAuthority (special : Bool) (c : Char) : Bool := isSlash special c || endsPath c

/-- The text without controls and spaces around it, and without tabs and line breaks. -/
def cleaned (text : String) : List Char :=
  let isBlank (c : Char) : Bool := c.toNat ≤ 0x20
  let trimmed := ((text.toList.dropWhile isBlank).reverse.dropWhile isBlank).reverse
  trimmed.filter fun c => c ∉ ['\t', '\n', '\r']

/-- Whether a character may stand in a scheme. -/
def isSchemeChar (c : Char) : Bool := c.isAlphanum || c ∈ ['+', '-', '.']

/-- The scheme in lower case, and what follows its colon. -/
def scheme? (text : List Char) : Option (String × List Char) :=
  match text.takeWhile isSchemeChar, text.dropWhile isSchemeChar with
  | first :: others, ':' :: rest =>
    if first.isAlpha then some (String.ofList ((first :: others).map Char.toLower), rest) else none
  | _, _ => none

/-- The text before the last `@`, and the text after it. -/
def splitUserinfo (text : List Char) : Option (List Char) × List Char :=
  let after := (text.reverse.takeWhile (· ≠ '@')).reverse
  if text.contains '@' then (some (text.take (text.length - after.length - 1)), after)
  else (none, after)

/-- The text of the host, and what follows it: nothing, or a colon and the port. Inside brackets a
colon belongs to the host. -/
def splitHost (inBrackets : Bool) : List Char → List Char × List Char
  | [] => ([], [])
  | c :: rest =>
    if c = ':' && !inBrackets then ([], c :: rest)
    else
      let inside := c = '[' || (inBrackets && c ≠ ']')
      let (host, port) := splitHost inside rest
      (c :: host, port)

def maxPort : Nat := 65535

/-- The port after a colon, unless it is the default, and what follows. -/
def port? (scheme : String) (text : List Char) : Option (Option Nat × List Char) := do
  let digits := text.takeWhile Char.isDigit
  let rest := text.dropWhile Char.isDigit
  if !rest.isEmpty && rest.head? ≠ some '\\' then none
  let port ← Host.number? 10 digits
  if maxPort < port then none
  some (if digits.isEmpty || some port = defaultPort? scheme then none else some port, rest)

def credentials (text : List Char) : String × String :=
  let encode (part : List Char) : String := String.ofList (percentEncode EncodeSet.userinfo part)
  (encode (text.takeWhile (· ≠ ':')), encode ((text.dropWhile (· ≠ ':')).drop 1))

/-- The authority at the start of a text, and what follows it. -/
def authority? (scheme : String) (text : List Char) : Option (Authority × List Char) := do
  let special := isSpecial scheme
  let own := text.takeWhile fun c => !endsAuthority special c
  let rest := text.dropWhile fun c => !endsAuthority special c
  let (userinfo, address) := splitUserinfo own
  let (username, password) := credentials (userinfo.getD [])
  let (hostText, portText) := splitHost false address
  if hostText.isEmpty then
    if special || !portText.isEmpty || username ≠ "" || password ≠ "" then none
    if userinfo = some [] ∧ !rest.isEmpty then none
  let host ← if special then Host.special? hostText else Host.other? hostText
  let (port, remaining) ← port? scheme (portText.drop 1)
  some (⟨username, password, host, port⟩, remaining ++ rest)

def isSingleDot (segment : List Char) : Bool :=
  (String.ofList (segment.map Char.toLower)) ∈ [".", "%2e"]

def isDoubleDot (segment : List Char) : Bool :=
  (String.ofList (segment.map Char.toLower)) ∈ ["..", ".%2e", "%2e.", "%2e%2e"]

def isDriveLetter : List Char → Bool
  | [letter, mark] => letter.isAlpha && mark ∈ [':', '|']
  | _ => false

/-- A segment as it is printed. The letter of a drive is followed by a colon in file URLs. -/
def printSegment (isFile : Bool) (segment : List Char) : String :=
  match segment with
  | [letter, mark] =>
    if isFile && isDriveLetter [letter, mark] then String.ofList [letter, ':']
    else String.ofList (percentEncode EncodeSet.path segment)
  | _ => String.ofList (percentEncode EncodeSet.path segment)

/-- The segments above, the innermost first. The drive of a file URL is never left. -/
def parent (isFile : Bool) : List String → List String
  | [] => []
  | last :: above => if isFile && isDriveLetter last.toList then last :: above else above

/-- Resolves the dots of segments; `above` holds the segments so far, the innermost first. -/
def resolveDots (isFile : Bool) : List String → List (List Char) → List String
  | above, [] => above.reverse
  | above, [last] =>
    if isDoubleDot last then ("" :: parent isFile above).reverse
    else if isSingleDot last then ("" :: above).reverse
    else (printSegment isFile last :: above).reverse
  | above, segment :: rest =>
    if isDoubleDot segment then resolveDots isFile (parent isFile above) rest
    else if isSingleDot segment then resolveDots isFile above rest
    else resolveDots isFile (printSegment isFile segment :: above) rest

/-- The segments of a text that starts with a slash, or stands after one. -/
def segmentsOf (special isFile : Bool) (text : List Char) : List String :=
  let own := match text with
    | c :: rest => if isSlash special c then rest else text
    | [] => []
  resolveDots isFile [] (pieces (isSlash special) own)

/-- The segments of a file URL: no empty ones at the start. -/
def fileSegmentsOf (text : List Char) : List String :=
  match (segmentsOf true true text).dropWhile (· = "") with
  | [] => [""]
  | names => names

/-- The URL with the query and the fragment of a text. -/
def withRest (url : Url) (text : List Char) : Url :=
  let querySet := if isSpecial url.scheme then EncodeSet.specialQuery else EncodeSet.query
  let query := match text with
    | '?' :: rest => some (String.ofList (percentEncode querySet (rest.takeWhile (· ≠ '#'))))
    | _ => none
  let fragment := match text.dropWhile (· ≠ '#') with
    | '#' :: rest => some (String.ofList (percentEncode EncodeSet.fragment rest))
    | _ => none
  { url with query := query, fragment := fragment }

/-- The URL of a scheme and an authority, and the text that follows them. -/
def afterAuthority (scheme : String) (authority : Authority) (text : List Char) : Url :=
  let special := isSpecial scheme
  let pathText := text.takeWhile fun c => !endsPath c
  let names := if !special && pathText.isEmpty then [] else segmentsOf special false pathText
  withRest ⟨scheme, some authority, .segments names, none, none⟩
    (text.dropWhile fun c => !endsPath c)

/-- The host of a file URL and what follows it; a local host is none. -/
def fileHost? (text : List Char) : Option (Host × List Char) :=
  let hostText := text.takeWhile fun c => !endsAuthority true c
  let rest := text.dropWhile fun c => !endsAuthority true c
  if isDriveLetter hostText then some (.named "", text)
  else if hostText.isEmpty then some (.named "", rest)
  else do
    let host ← Host.special? hostText
    some (if host = .named "localhost" then .named "" else host, rest)

def file? (text : List Char) : Option Url := do
  let (host, rest) ← match text with
    | a :: b :: rest =>
      if isSlash true a && isSlash true b then fileHost? rest else some (.named "", text)
    | _ => some (.named "", text)
  let names := fileSegmentsOf (rest.takeWhile fun c => !endsPath c)
  let host := if names.any fun name => isDriveLetter name.toList then .named "" else host
  some (withRest ⟨"file", some { host := host }, .segments names, none, none⟩
    (rest.dropWhile fun c => !endsPath c))

/-- The URL of a scheme that is not special. -/
def other? (scheme : String) : List Char → Option Url
  | '/' :: '/' :: rest => do
    let (authority, rest) ← authority? scheme rest
    some (afterAuthority scheme authority rest)
  | text =>
    let pathText := text.takeWhile fun c => !endsPath c
    let path := match pathText with
      | '/' :: _ => Path.segments (segmentsOf false false pathText)
      | _ => Path.verbatim (String.ofList (percentEncode EncodeSet.controls pathText))
    some (withRest ⟨scheme, none, path, none, none⟩ (text.dropWhile fun c => !endsPath c))

def parse? (text : String) : Option Url := do
  let (scheme, rest) ← scheme? (cleaned text)
  if scheme = "file" then file? rest
  else if isSpecial scheme then do
    let (authority, rest) ← authority? scheme (rest.dropWhile (isSlash true))
    some (afterAuthority scheme authority rest)
  else other? scheme rest

/-! ## Printing -/

/-- The authority with the slashes before it. -/
def Authority.toText (a : Authority) : String :=
  let password := if a.password = "" then "" else ":" ++ a.password
  let userinfo := if a.username = "" ∧ a.password = "" then "" else a.username ++ password ++ "@"
  "//" ++ userinfo ++ a.host.toText ++ ((a.port.map fun n => ":" ++ Host.decimal n).getD "")

/-- The path; without an authority it never starts with two slashes. -/
def Path.toText (hasAuthority : Bool) : Path → String
  | verbatim text => text
  | segments names =>
    let joined := String.join (names.map fun name => "/" ++ name)
    if !hasAuthority && names.head? = some "" && 1 < names.length then "/." ++ joined else joined

def toText (url : Url) : String :=
  url.scheme ++ ":" ++ (url.authority.map Authority.toText).getD ""
    ++ url.path.toText url.authority.isSome
    ++ (url.query.map fun query => "?" ++ query).getD ""
    ++ (url.fragment.map fun fragment => "#" ++ fragment).getD ""

end Url

end GraphClient
