/-!
# Characters in their places

What a character of a YAML text means depends on where it stands, so a text is read as its characters
with their places. A line ends at a line feed, to which a carriage return before it belongs; a lone
carriage return separates words as well, but the columns count on. The text ends at the first null
character.
-/

namespace GraphClient.Yaml

def isBlank (c : Char) : Bool := c = ' ' || c = '\t'

def isBreak (c : Char) : Bool := c = '\n' || c = '\r'

def isFlow (c : Char) : Bool := c ∈ [',', '[', ']', '{', '}']

def isName (c : Char) : Bool := c.isAlphanum || c = '_' || c = '-'

/-- A character and where it stands. -/
structure Placed where
  char : Char
  line : Nat
  column : Nat
  /-- How many characters come before it. -/
  index : Nat

/-- Characters of which the first stands at a given place. -/
def placeFrom (line column index : Nat) : List Char → List Placed
  | [] => []
  | '\r' :: '\n' :: cs => ⟨'\n', line, column, index⟩ :: placeFrom (line + 1) 0 (index + 1) cs
  | '\n' :: cs => ⟨'\n', line, column, index⟩ :: placeFrom (line + 1) 0 (index + 1) cs
  | c :: cs => ⟨c, line, column, index⟩ :: placeFrom line (column + 1) (index + 1) cs

def place (text : String) : List Placed := placeFrom 0 0 0 (text.toList.takeWhile (· ≠ '\x00'))

namespace Placed

/-- Whether a word ends here: at a blank, at a line break or at the end. -/
def wordEnds (cs : List Placed) : Bool := cs.head?.all fun p => isBlank p.char || isBreak p.char

def lineEnds (cs : List Placed) : Bool := cs.head?.all fun p => isBreak p.char

def next (c : Char) (cs : List Placed) : Bool := cs.head?.any fun p => p.char = c

/-- Whether a line begins here with three of these characters and nothing more in its first word. -/
def isMarker (mark : Char) : List Placed → Bool
  | a :: b :: c :: rest =>
    a.column = 0 && a.char = mark && b.char = mark && c.char = mark && wordEnds rest
  | _ => false

/-- Whether a document begins or ends at this line. -/
def isDocumentMarker (cs : List Placed) : Bool := isMarker '-' cs || isMarker '.' cs

/-- What comes after blanks. -/
def skipBlanks (cs : List Placed) : List Placed := cs.dropWhile fun p => isBlank p.char

/-- The rest of a line, without the break that ends it. -/
def lineRest (cs : List Placed) : List Char :=
  (cs.takeWhile fun p => !isBreak p.char).map (·.char)

/-- What comes after the rest of a line, from the break that ends it. -/
def skipLine (cs : List Placed) : List Placed := cs.dropWhile fun p => !isBreak p.char

/-- The end of a line on which there is nothing more to read but a comment. -/
def toLineEnd? (cs : List Placed) : Option (List Placed) :=
  let cs := skipBlanks cs
  let cs := if next '#' cs then skipLine cs else cs
  if lineEnds cs then some cs else none

end Placed

end GraphClient.Yaml
