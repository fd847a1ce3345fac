/-!
# Percent-encoding

A character of a URL that may not stand for itself is written as the bytes of its UTF-8 form, each as
a percent sign and two hexadecimal digits. Which characters these are depends on the part of the URL;
characters beyond ASCII and controls are encoded everywhere.
-/

namespace GraphClient.Url

abbrev EncodeSet := Char → Bool

namespace EncodeSet

def controls : EncodeSet := fun c => c.toNat < 0x20 || 0x7e < c.toNat

def fragment : EncodeSet := fun c => controls c || c ∈ [' ', '\x22', '<', '>', '\x60']

def path : EncodeSet := fun c => fragment c || c ∈ ['#', '?', '{', '}']

/-- What is encoded in a user name or a password. -/
def userinfo : EncodeSet := fun c =>
  path c || c ∈ ['/', ':', ';', '=', '@', '[', '\\', ']', '^', '|']

def query : EncodeSet := fun c => controls c || c ∈ [' ', '\x22', '#', '<', '>']

/-- What is encoded in the query of a URL with a special scheme. -/
def specialQuery : EncodeSet := fun c => query c || c = '\''

end EncodeSet

def bytesOf (c : Char) : List UInt8 := (String.singleton c).toUTF8.toList

def hexDigit (n : Nat) : Char := if n < 10 then Char.ofNat (48 + n) else Char.ofNat (55 + n)

def hexValue? (c : Char) : Option Nat :=
  if c.isDigit then some (c.toNat - 48)
  else if 'a' ≤ c ∧ c ≤ 'f' then some (c.toNat - 87)
  else if 'A' ≤ c ∧ c ≤ 'F' then some (c.toNat - 55)
  else none

def percentByte (b : UInt8) : List Char := ['%', hexDigit (b.toNat / 16), hexDigit (b.toNat % 16)]

/-- Encodes the characters of a set; an encoded text stays as it is. -/
def percentEncode (set : EncodeSet) (text : List Char) : List Char :=
  text.flatMap fun c => if set c then (bytesOf c).flatMap percentByte else [c]

/-- The bytes of a text with what is encoded in it; a percent sign without two digits stands for
itself. -/
def percentDecode : List Char → List UInt8
  | '%' :: a :: b :: rest =>
    match hexValue? a, hexValue? b with
    | some high, some low => UInt8.ofNat (high * 16 + low) :: percentDecode rest
    | _, _ => bytesOf '%' ++ percentDecode (a :: b :: rest)
  | c :: rest => bytesOf c ++ percentDecode rest
  | [] => []

def pieces (isSeparator : Char → Bool) : List Char → List (List Char)
  | [] => [[]]
  | c :: rest =>
    if isSeparator c then [] :: pieces isSeparator rest
    else
      match pieces isSeparator rest with
      | [] => [[c]]
      | first :: others => (c :: first) :: others

end GraphClient.Url
