import GraphClient.Decimal.Nearest
import GraphClient.Json.Basic

/-!
# Reading JSON texts

The grammar is strict: no byte order mark, no trailing comma, no control character and no lone
surrogate in a string, nothing but blanks after the value. Arrays and objects may be nested
`maxDepth` deep; the depth that is left is also what the reader recurses on.

A reader takes the characters that remain and returns a value with the characters after it.
`document?` keeps every member of an object, repeated keys included; `parse?` lets the last value of
a repeated key win, at the place of the first.
-/

namespace GraphClient.Json

/-- How deep arrays and objects may be nested. -/
def maxDepth : Nat := 127

namespace Reader

/-- The four blanks that may stand between tokens. -/
def isBlank (c : Char) : Bool := c = ' ' || c = '\n' || c = '\t' || c = '\r'

def skipBlanks (cs : List Char) : List Char := cs.dropWhile isBlank

/-- The characters after a word that must come next. -/
def expect : List Char → List Char → Option (List Char)
  | [], cs => some cs
  | _ :: _, [] => none
  | w :: word, c :: cs => if w = c then expect word cs else none

def hexDigit? (c : Char) : Option Nat :=
  if '0' ≤ c ∧ c ≤ '9' then some (c.toNat - 48)
  else if 'a' ≤ c ∧ c ≤ 'f' then some (c.toNat - 87)
  else if 'A' ≤ c ∧ c ≤ 'F' then some (c.toNat - 55)
  else none

def hexUnit : List Char → Option (Nat × List Char)
  | a :: b :: c :: d :: cs => do
    let a ← hexDigit? a
    let b ← hexDigit? b
    let c ← hexDigit? c
    let d ← hexDigit? d
    pure (((a * 16 + b) * 16 + c) * 16 + d, cs)
  | _ => none

/-- The character of the code unit of a `\u` escape; a high surrogate takes a second escape. -/
def unicodeEscape (cs : List Char) : Option (Char × List Char) := do
  let (unit, cs) ← hexUnit cs
  if 0xDC00 ≤ unit ∧ unit ≤ 0xDFFF then none
  else if 0xD800 ≤ unit ∧ unit ≤ 0xDBFF then
    let cs ← expect ['\\', 'u'] cs
    let (low, cs) ← hexUnit cs
    if 0xDC00 ≤ low ∧ low ≤ 0xDFFF then
      pure (Char.ofNat (0x10000 + (unit - 0xD800) * 0x400 + (low - 0xDC00)), cs)
    else none
  else pure (Char.ofNat unit, cs)

def escapeSequence : List Char → Option (Char × List Char)
  | [] => none
  | c :: cs =>
    if c = '\x22' then some ('\x22', cs)
    else if c = '\\' then some ('\\', cs)
    else if c = '/' then some ('/', cs)
    else if c = 'b' then some ('\x08', cs)
    else if c = 'f' then some ('\x0c', cs)
    else if c = 'n' then some ('\n', cs)
    else if c = 'r' then some ('\r', cs)
    else if c = 't' then some ('\t', cs)
    else if c = 'u' then unicodeEscape cs
    else none

/-- The characters of a string up to its closing quote, at most as many as `fuel`. -/
def stringBody : (fuel : Nat) → List Char → Option (List Char × List Char)
  | 0, _ => none
  | _ + 1, [] => none
  | fuel + 1, c :: cs =>
    if c = '\x22' then some ([], cs)
    else if c = '\\' then do
      let (c, cs) ← escapeSequence cs
      let (body, cs) ← stringBody fuel cs
      pure (c :: body, cs)
    else if c.toNat < 0x20 then none
    else do
      let (body, cs) ← stringBody fuel cs
      pure (c :: body, cs)

/-- A string, its opening quote included. -/
def quoted : List Char → Option (String × List Char)
  | [] => none
  | c :: cs =>
    if c = '\x22' then (stringBody cs.length cs).map fun (body, cs) => (String.ofList body, cs)
    else none

/-- The digits at the front, and what follows them. -/
def digits (cs : List Char) : List Char × List Char :=
  (cs.takeWhile Char.isDigit, cs.dropWhile Char.isDigit)

def digitsValue (ds : List Char) : Nat := ds.foldl (fun n d => n * 10 + (d.toNat - 48)) 0

structure NumberToken where
  negative : Bool
  whole : List Char
  fraction : List Char
  /-- The sign and the digits of the exponent, if there is one. -/
  exponent : Option (Bool × List Char)

/-- The digits after a point, if a point comes next; there must be one at least. -/
def fractionPart : List Char → Option (List Char × List Char)
  | '.' :: cs => if (digits cs).1.isEmpty then none else some (digits cs)
  | cs => some ([], cs)

/-- An exponent, if one comes next: its sign and at least one digit. -/
def exponentPart : List Char → Option (Option (Bool × List Char) × List Char)
  | c :: cs =>
    if c = 'e' ∨ c = 'E' then
      let (negative, cs) := match cs with
        | '-' :: cs => (true, cs)
        | '+' :: cs => (false, cs)
        | cs => (false, cs)
      if (digits cs).1.isEmpty then none else some (some (negative, (digits cs).1), (digits cs).2)
    else some (none, c :: cs)
  | [] => some (none, [])

/-- A number: a sign, digits without a leading zero, a fraction, an exponent. -/
def numberToken (cs : List Char) : Option (NumberToken × List Char) := do
  let (negative, cs) := match cs with
    | '-' :: cs => (true, cs)
    | cs => (false, cs)
  let (whole, cs) := digits cs
  if whole.isEmpty ∨ (whole.head? = some '0' ∧ whole.length > 1) then none
  else
    let (fraction, cs) ← fractionPart cs
    let (exponent, cs) ← exponentPart cs
    pure (⟨negative, whole, fraction, exponent⟩, cs)

/-- An integer when it is written as one and fits into 64 bits, signed or unsigned; anything else,
and `-0`, is the nearest double. A number beyond the doubles is none. -/
def NumberToken.value? (token : NumberToken) : Option Number :=
  let whole := digitsValue token.whole
  let isInteger := token.fraction.isEmpty && token.exponent.isNone
  if isInteger && !token.negative && decide (whole < Nat.pow 2 64) then some (.integer whole)
  else if isInteger && token.negative && decide (0 < whole ∧ whole ≤ Nat.pow 2 63) then
    some (.integer (-whole))
  else
    let exponent : Int := match token.exponent with
      | none => 0
      | some (true, ds) => -(digitsValue ds)
      | some (false, ds) => digitsValue ds
    (Decimal.nearest (digitsValue (token.whole ++ token.fraction))
      (exponent - token.fraction.length)).map fun bits =>
        .double (Binary64.ofSign token.negative bits)

/-- One or more items between commas, up to the closing character. -/
def separated {α : Type} (close : Char) (item : List Char → Option (α × List Char)) :
    (fuel : Nat) → List Char → Option (List α × List Char)
  | 0, _ => none
  | fuel + 1, cs => do
    let (x, cs) ← item (skipBlanks cs)
    match skipBlanks cs with
    | [] => none
    | c :: cs =>
      if c = close then pure ([x], cs)
      else if c = ',' then
        let (xs, cs) ← separated close item fuel cs
        pure (x :: xs, cs)
      else none

/-- Items between commas up to the closing character, none at all included. -/
def enclosed {α : Type} (close : Char) (item : List Char → Option (α × List Char)) (cs : List Char) :
    Option (List α × List Char) :=
  match skipBlanks cs with
  | [] => none
  | c :: rest => if c = close then some ([], rest) else separated close item cs.length cs

/-- A member of an object: a string, a colon and whatever `item` reads. -/
def memberOf {α : Type} (item : List Char → Option (α × List Char)) (cs : List Char) :
    Option ((String × α) × List Char) := do
  let (key, cs) ← quoted cs
  let cs ← expect [':'] (skipBlanks cs)
  let (x, cs) ← item (skipBlanks cs)
  pure ((key, x), cs)

/-- A word, a string or a number. -/
def scalar (cs : List Char) : Option (Json × List Char) :=
  match cs with
  | [] => none
  | c :: _ =>
    if c = 'n' then (expect ['n', 'u', 'l', 'l'] cs).map fun cs => (null, cs)
    else if c = 't' then (expect ['t', 'r', 'u', 'e'] cs).map fun cs => (bool true, cs)
    else if c = 'f' then (expect ['f', 'a', 'l', 's', 'e'] cs).map fun cs => (bool false, cs)
    else if c = '\x22' then (quoted cs).map fun (s, cs) => (string s, cs)
    else do
      let (token, cs) ← numberToken cs
      let value ← token.value?
      pure (number value, cs)

/-- A value nested at most `depth` deep. -/
def value : (depth : Nat) → List Char → Option (Json × List Char)
  | 0, cs => scalar cs
  | depth + 1, cs =>
    match cs with
    | '[' :: cs => (enclosed ']' (value depth) cs).map fun (items, cs) => (array items, cs)
    | '{' :: cs =>
      (enclosed '}' (memberOf (value depth)) cs).map fun (members, cs) => (object members, cs)
    | cs => scalar cs

/-- What a reader makes of a whole text, blanks around it apart. -/
def whole? {α : Type} (item : List Char → Option (α × List Char)) (text : String) : Option α := do
  let (x, cs) ← item (skipBlanks text.toList)
  if (skipBlanks cs).isEmpty then pure x else none

/-- The value that begins at this character and is nested without bound, skipped: only its shape is
looked at, so a number may be out of range and an escape may name half a surrogate pair. -/
def skipString : (fuel : Nat) → List Char → Option (List Char)
  | 0, _ => none
  | _ + 1, [] => none
  | fuel + 1, c :: cs =>
    if c = '\x22' then some cs
    else if c = '\\' then
      match cs with
      | 'u' :: cs => do
        let (_, cs) ← hexUnit cs
        skipString fuel cs
      | c :: cs => do
        let _ ← escapeSequence [c]
        skipString fuel cs
      | [] => none
    else if c.toNat < 0x20 then none
    else skipString fuel cs

def skipScalar (cs : List Char) : Option (Unit × List Char) :=
  match cs with
  | '\x22' :: cs => (skipString cs.length cs).map fun cs => ((), cs)
  | 'n' :: _ => (expect ['n', 'u', 'l', 'l'] cs).map fun cs => ((), cs)
  | 't' :: _ => (expect ['t', 'r', 'u', 'e'] cs).map fun cs => ((), cs)
  | 'f' :: _ => (expect ['f', 'a', 'l', 's', 'e'] cs).map fun cs => ((), cs)
  | cs => (numberToken cs).map fun (_, cs) => ((), cs)

def skipMember (item : List Char → Option (Unit × List Char)) (cs : List Char) :
    Option (Unit × List Char) := do
  let cs ← expect ['\x22'] cs
  let cs ← skipString cs.length cs
  let cs ← expect [':'] (skipBlanks cs)
  item (skipBlanks cs)

def skipValue : (depth : Nat) → List Char → Option (Unit × List Char)
  | 0, cs => skipScalar cs
  | depth + 1, cs =>
    match cs with
    | '[' :: cs => (enclosed ']' (skipValue depth) cs).map fun (_, cs) => ((), cs)
    | '{' :: cs => (enclosed '}' (skipMember (skipValue depth)) cs).map fun (_, cs) => ((), cs)
    | cs => skipScalar cs

end Reader

mutual

/-- The value in which the last value of a repeated key stands at the place of the first. -/
def collapse : Json → Json
  | array items => array (collapseItems items)
  | object members => object (Assoc.ofEntries (collapseMembers members))
  | value => value

def collapseItems : List Json → List Json
  | [] => []
  | x :: xs => collapse x :: collapseItems xs

/-- Every value of a member collapsed; repeated keys are kept. -/
def collapseMembers : List (String × Json) → List (String × Json)
  | [] => []
  | (key, x) :: xs => (key, collapse x) :: collapseMembers xs

end

/-- The value of a text, with every member of its objects. -/
def document? (text : String) : Option Json := Reader.whole? (Reader.value maxDepth) text

/-- The value of a text, none when it is not JSON or nested too deep. -/
def parse? (text : String) : Option Json := (document? text).map collapse

def parseBytes? (bytes : ByteArray) : Option Json := (String.fromUTF8? bytes).bind parse?

end GraphClient.Json
