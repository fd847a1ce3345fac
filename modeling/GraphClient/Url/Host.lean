import GraphClient.Url.Percent
import GraphClient.Url.Punycode

/-!
# Hosts

A host is a name, an IPv4 address or an IPv6 address. The name of a special URL is a domain: it is
decoded, its letters become lower case, and labels beyond ASCII are written in ASCII. A domain that
ends in a number is an IPv4 address, or nothing. The name of any other URL is only encoded.
-/

namespace GraphClient.Url

inductive Host where
  | named (name : String)
  | ipv4 (address : Nat)
  | ipv6 (pieces : List Nat)
deriving DecidableEq, Repr

namespace Host

/-! ## Addresses -/

/-- The value of digits in a base, none if there is another character. -/
def number? (base : Nat) (digits : List Char) : Option Nat :=
  digits.foldlM (fun n c => do
    let value ← hexValue? c
    if value < base then some (n * base + value) else none) 0

/-- A number in an IPv4 address: decimal, octal after a zero, or hexadecimal after `0x`. -/
def ipv4Number? : List Char → Option Nat
  | [] => none
  | '0' :: 'x' :: digits => number? 16 digits
  | '0' :: 'X' :: digits => number? 16 digits
  | ['0'] => some 0
  | '0' :: digits => number? 8 digits
  | digits => number? 10 digits

/-- The labels without an empty one at the end. -/
def withoutRoot (labels : List (List Char)) : List (List Char) :=
  if labels.getLast? = some [] then labels.dropLast else labels

/-- Whether the last label of a domain is a number. -/
def endsInNumber (labels : List (List Char)) : Bool :=
  match (withoutRoot labels).getLast? with
  | none => false
  | some last => (!last.isEmpty && last.all Char.isDigit) || (ipv4Number? last).isSome

/-- The address of up to four numbers: the last one fills what the others leave. -/
def ipv4OfNumbers? : Nat → List Nat → Option Nat
  | _, [] => none
  | room, [last] => if last < Nat.pow 256 room then some last else none
  | room, n :: rest => do
    let address ← ipv4OfNumbers? (room - 1) rest
    if n < 256 then some (n * Nat.pow 256 (room - 1) + address) else none

/-- The address of the labels of a domain that ends in a number. -/
def ipv4? (labels : List (List Char)) : Option Nat := do
  let numbers ← (withoutRoot labels).mapM ipv4Number?
  if numbers.length ≤ 4 then ipv4OfNumbers? 4 numbers else none

/-- The two pieces of an IPv4 address in decimal. -/
def embedded? (text : List Char) : Option (List Nat) := do
  let numbers ← (pieces (· = '.') text).mapM fun digits => do
    if digits.isEmpty || (1 < digits.length && digits.head? = some '0') then none
    let n ← number? 10 digits
    if n < 256 then some n else none
  match numbers with
  | [a, b, c, d] => some [a * 256 + b, c * 256 + d]
  | _ => none

/-- The pieces of groups between colons; the last group may be an IPv4 address. -/
def groups? : List (List Char) → Option (List Nat)
  | [] => some []
  | [last] =>
    if last.contains '.' then embedded? last
    else if 1 ≤ last.length ∧ last.length ≤ 4 then (number? 16 last).map fun n => [n] else none
  | group :: rest => do
    let rest ← groups? rest
    if 1 ≤ group.length ∧ group.length ≤ 4 then (number? 16 group).map (· :: rest) else none

/-- The text before and after the first two colons in a row. -/
def splitGap : List Char → Option (List Char × List Char)
  | ':' :: ':' :: rest => some ([], rest)
  | c :: rest => (splitGap rest).map fun (before, after) => (c :: before, after)
  | [] => none

/-- The pieces of one side of the gap. -/
def side? (text : List Char) : Option (List Nat) :=
  if text.isEmpty then some [] else groups? (pieces (· = ':') text)

/-- The pieces of an IPv6 address; two colons in a row stand for at least one piece of zero. -/
def ipv6? (text : List Char) : Option (List Nat) :=
  match splitGap text with
  | none => do
    let all ← groups? (pieces (· = ':') text)
    if all.length = 8 then some all else none
  | some (before, after) => do
    if before.contains '.' then none
    let left ← side? before
    let right ← side? after
    if left.length + right.length ≤ 7 then
      some (left ++ List.replicate (8 - left.length - right.length) 0 ++ right)
    else none

/-! ## Names -/

/-- Whether a character may not stand in a domain. -/
def isForbiddenInDomain (c : Char) : Bool :=
  c.toNat ≤ 0x20 || (0x7f ≤ c.toNat && c.toNat ≤ 0x9f)
    || c ∈ ['#', '%', '/', ':', '<', '>', '?', '@', '[', '\\', ']', '^', '|']

/-- Whether a character may not stand in the name of a host that is no domain. -/
def isForbiddenInName (c : Char) : Bool :=
  c ∈ ['\x00', '\t', '\n', '\r', ' ', '#', '/', ':', '<', '>', '?', '@', '[', '\\', ']', '^', '|']

/-- The characters that a character of a domain counts as. Case is mapped for Latin, Greek and
Cyrillic letters and for the wide forms of ASCII; soft hyphens vanish; every other character stays. -/
def mapChar (c : Char) : List Char :=
  let n := c.toNat
  if 0x41 ≤ n ∧ n ≤ 0x5a then [Char.ofNat (n + 32)]
  else if n = 0xad then []
  else if 0xc0 ≤ n ∧ n ≤ 0xde ∧ n ≠ 0xd7 then [Char.ofNat (n + 32)]
  else if (0x100 ≤ n ∧ n ≤ 0x137 ∧ n ≠ 0x130 ∨ 0x14a ≤ n ∧ n ≤ 0x177) ∧ n % 2 = 0 then
    [Char.ofNat (n + 1)]
  else if (0x139 ≤ n ∧ n ≤ 0x148 ∨ 0x179 ≤ n ∧ n ≤ 0x17e) ∧ n % 2 = 1 then [Char.ofNat (n + 1)]
  else if 0x391 ≤ n ∧ n ≤ 0x3a9 ∧ n ≠ 0x3a2 then [Char.ofNat (n + 32)]
  else if 0x400 ≤ n ∧ n ≤ 0x40f then [Char.ofNat (n + 80)]
  else if 0x410 ≤ n ∧ n ≤ 0x42f then [Char.ofNat (n + 32)]
  else if n = 0x3002 ∨ n = 0xff61 then ['.']
  else if 0xff21 ≤ n ∧ n ≤ 0xff3a then [Char.ofNat (n - 0xfee0 + 32)]
  else if 0xff01 ≤ n ∧ n ≤ 0xff5e then [Char.ofNat (n - 0xfee0)]
  else [c]

def labelToAscii (label : List Char) : List Char :=
  if label.all fun c => c.toNat ≤ 0x7f then label
  else ['x', 'n', '-', '-'] ++ Punycode.encode label

/-- Whether a label is not marked as an ASCII form, or is one of a label beyond ASCII that is mapped
already. -/
def isWellEncoded : List Char → Bool
  | 'x' :: 'n' :: '-' :: '-' :: text =>
    (Punycode.decode? text).any fun label =>
      label.any (fun c => 0x7f < c.toNat) && !label.any isForbiddenInDomain
        && label.flatMap mapChar == label
        && Punycode.encode label == text
  | _ => true

def domain? (text : List Char) : Option Host := do
  let decoded ← String.fromUTF8? ⟨(percentDecode text).toArray⟩
  let mapped := decoded.toList.flatMap mapChar
  if mapped.isEmpty || mapped.any isForbiddenInDomain then none
  let labels := pieces (· = '.') mapped
  if endsInNumber labels then (ipv4? labels).map ipv4
  else if !labels.all isWellEncoded then none
  else some (named (String.ofList (List.intercalate ['.'] (labels.map labelToAscii))))

/-- The address between brackets, if a text is in brackets; none if it is a bad one. -/
def bracketed? : List Char → Option (Option Host)
  | '[' :: rest =>
    if rest.getLast? = some ']' then some ((ipv6? rest.dropLast).map ipv6) else some none
  | _ => none

def special? (text : List Char) : Option Host := (bracketed? text).getD (domain? text)

/-- The host of a URL with any other scheme; it may be empty. -/
def other? (text : List Char) : Option Host :=
  (bracketed? text).getD
    (if text.any isForbiddenInName then none
    else some (named (String.ofList (percentEncode EncodeSet.controls text))))

/-! ## Printing -/

def decimal (n : Nat) : String := String.ofList (Nat.toDigits 10 n)

def leadingZeros (pieces : List Nat) : Nat := (pieces.takeWhile (· = 0)).length

/-- The position and length of the first longest run of zeros, searched from position `i`. -/
def longestRun : Nat → List Nat → Nat × Nat
  | i, [] => (i, 0)
  | i, n :: rest =>
    let here := leadingZeros (n :: rest)
    let later := longestRun (i + 1) rest
    if later.2 ≤ here then (i, here) else later

def printGroups (pieces : List Nat) : String :=
  String.intercalate ":" (pieces.map fun n => String.ofList (Nat.toDigits 16 n))

/-- An IPv6 address; the first longest run of at least two zeros is left out. -/
def printIpv6 (pieces : List Nat) : String :=
  let (start, length) := longestRun 0 pieces
  if length < 2 then printGroups pieces
  else printGroups (pieces.take start) ++ "::" ++ printGroups (pieces.drop (start + length))

/-- An IPv4 address in decimal. -/
def printIpv4 (address : Nat) : String :=
  String.intercalate "." ([16777216, 65536, 256, 1].map fun unit => decimal (address / unit % 256))

def toText : Host → String
  | named name => name
  | ipv4 address => printIpv4 address
  | ipv6 pieces => "[" ++ printIpv6 pieces ++ "]"

end Host

end GraphClient.Url
