import GraphClient.Decimal.Layout
import GraphClient.Json.Basic

/-!
# The compact text of a JSON value

`render` writes a value without any blank, members in their order. In a string only the quote, the
backslash and the characters below U+0020 are escaped. `render` works on lists of characters, so
that a text can be taken apart by its constructors; `toText` is the same as a string.
-/

namespace GraphClient.Json

/-- Doubles are positional from `0.00001` up to sixteen digits before the point, and carry a sign
on either exponent elsewhere: `1e-6`, `1e+16`. -/
def doubleLayout : Decimal.Layout where
  minPositional := -5
  maxPositional := 15
  mark := ['e']
  positiveSign := ['+']

def renderInteger (value : Int) : List Char :=
  if value < 0 then '-' :: Nat.toDigits 10 value.natAbs else Nat.toDigits 10 value.natAbs

def Number.render : Number → List Char
  | .integer value => renderInteger value
  | .double bits => doubleLayout.render bits

def escape (c : Char) : List Char :=
  if c = '\x22' then ['\\', '\x22']
  else if c = '\\' then ['\\', '\\']
  else if c = '\x08' then ['\\', 'b']
  else if c = '\x0c' then ['\\', 'f']
  else if c = '\n' then ['\\', 'n']
  else if c = '\r' then ['\\', 'r']
  else if c = '\t' then ['\\', 't']
  else if c.toNat < 0x20 then
    ['\\', 'u', '0', '0', Nat.digitChar (c.toNat / 16), Nat.digitChar (c.toNat % 16)]
  else [c]

def quote (s : String) : List Char := '\x22' :: (s.toList.flatMap escape ++ ['\x22'])

mutual

def render : Json → List Char
  | null => ['n', 'u', 'l', 'l']
  | bool true => ['t', 'r', 'u', 'e']
  | bool false => ['f', 'a', 'l', 's', 'e']
  | number value => value.render
  | string value => quote value
  | array [] => ['[', ']']
  | array (x :: xs) => '[' :: (render x ++ renderItems xs)
  | object [] => ['{', '}']
  | object ((key, x) :: xs) => '{' :: (quote key ++ ':' :: (render x ++ renderMembers xs))

/-- The further items of an array and its end. -/
def renderItems : List Json → List Char
  | [] => [']']
  | x :: xs => ',' :: (render x ++ renderItems xs)

/-- The further members of an object and its end. -/
def renderMembers : List (String × Json) → List Char
  | [] => ['}']
  | (key, x) :: xs => ',' :: (quote key ++ ':' :: (render x ++ renderMembers xs))

end

/-- The compact text of a value, as a string. -/
def toText (value : Json) : String := String.ofList value.render

@[simp] theorem toList_toText (value : Json) : value.toText.toList = value.render := by
  simp [toText]

end GraphClient.Json
