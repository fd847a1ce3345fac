import GraphClient.Url.Percent
import GraphClient.Yaml.Placed

/-!
# Tags and directives

A tag says of what type a node is. It has a handle, which may be a primary `!` or a secondary `!!`,
and a suffix of characters of a URI. A directive is a line before a document; it is checked for its
shape and has no further effect.
-/

namespace GraphClient.Yaml

structure Tag where
  handle : String
  suffix : String
deriving DecidableEq

namespace Tag

def isUriChar (c : Char) : Bool :=
  isName c || c ∈ [';', '/', '?', ':', '@', '&', '=', '+', '$', ',', '.', '!', '~', '*', '\'', '(',
    ')', '[', ']', '%']

/-- Whether every percent sign has two hexadecimal digits. -/
def isEncoded : List Char → Bool
  | '%' :: a :: b :: cs => (Url.hexValue? a).isSome && (Url.hexValue? b).isSome && isEncoded cs
  | '%' :: _ => false
  | _ :: cs => isEncoded cs
  | [] => true

def decode? (uri : List Char) : Option String :=
  if isEncoded uri then String.fromUTF8? ⟨(Url.percentDecode uri).toArray⟩ else none

/-- The longest text of characters of a kind, and what comes after it. -/
def run (isIn : Char → Bool) (cs : List Placed) : List Char × List Placed :=
  ((cs.takeWhile fun p => isIn p.char).map (·.char), cs.dropWhile fun p => isIn p.char)

/-- Characters of a URI, one at least, and what comes after them. -/
def uri? (cs : List Placed) : Option (String × List Placed) :=
  let (uri, cs) := run isUriChar cs
  if uri.isEmpty then none else (decode? uri).map fun uri => (uri, cs)

/-- The handle and the suffix of a tag whose exclamation mark was read. A name between exclamation
marks is a handle; without the second mark it belongs to the suffix. -/
def parts? (cs : List Placed) : Option (Tag × List Placed) :=
  if Placed.next '<' cs then do
    let (suffix, cs) ← uri? cs.tail
    if Placed.next '>' cs then pure (⟨"", suffix⟩, cs.tail) else none
  else
    let (name, rest) := run isName cs
    if Placed.next '!' rest then do
      let (suffix, cs) ← uri? rest.tail
      pure (⟨"!" ++ String.ofList name ++ "!", suffix⟩, cs)
    else
      let (uri, cs) := run isUriChar cs
      if uri.isEmpty then some (⟨"", "!"⟩, cs)
      else (decode? uri).map fun suffix => (⟨"!", suffix⟩, cs)

/-- A tag whose exclamation mark was read; it is a word of its own. -/
def read? (cs : List Placed) : Option (Tag × List Placed) := do
  let (tag, cs) ← parts? cs
  if Placed.wordEnds cs then pure (tag, cs) else none

end Tag

namespace Directive

/-- A number of at most nine digits. -/
def number? (cs : List Placed) : Option (List Placed) :=
  let (digits, cs) := Tag.run Char.isDigit cs
  if digits.isEmpty ∨ 9 < digits.length then none else some cs

def version? (cs : List Placed) : Option (List Placed) := do
  let cs ← number? (Placed.skipBlanks cs)
  if Placed.next '.' cs then number? cs.tail else none

/-- A handle, which is one exclamation mark or a name between two, and the characters of a URI. -/
def handle? (cs : List Placed) : Option (List Placed) := do
  let cs := Placed.skipBlanks cs
  if Placed.next '!' cs then
    let (name, cs) := Tag.run isName cs.tail
    let cs ← if Placed.next '!' cs then some cs.tail else if name.isEmpty then some cs else none
    let (_, cs) ← Tag.uri? (Placed.skipBlanks cs)
    if Placed.wordEnds cs then pure cs else none
  else none

/-- A directive whose percent sign was read: what comes after it. A directive with a name of its own
is passed over. -/
def read? (cs : List Placed) : Option (List Placed) := do
  let (name, cs) := Tag.run isName cs
  if name.isEmpty ∨ !Placed.wordEnds cs then none
  else
    let cs ← match String.ofList name with
      | "YAML" => version? cs
      | "TAG" => handle? cs
      | _ => some (Placed.skipLine cs)
    Placed.toLineEnd? cs

end Directive

end GraphClient.Yaml
