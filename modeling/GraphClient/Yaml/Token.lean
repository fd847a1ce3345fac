import GraphClient.Yaml.Tag

/-!
# The words of a YAML text

A text is made of scalars and of marks of its structure. The blocks that are written by indentation
alone have marks of their own where they begin and end.
-/

namespace GraphClient.Yaml

/-- A text that is no collection. -/
structure Scalar where
  text : String
  /-- Whether it is written without quotes and not as a block. -/
  plain : Bool
deriving DecidableEq

inductive Token where
  | directive
  | documentStart
  | documentEnd
  | blockSequenceStart
  | blockMappingStart
  | blockEnd
  /-- The dash before an item. -/
  | item
  | flowSequenceStart
  | flowSequenceEnd
  | flowMappingStart
  | flowMappingEnd
  | comma
  /-- What comes next is a key. -/
  | key
  /-- What comes next is the value of a key. -/
  | value
  /-- What stands in place of the node of an anchor. -/
  | alias (anchor : String)
  /-- The name of the node that comes next. -/
  | anchor (name : String)
  | tag (tag : Tag)
  | scalar (scalar : Scalar)
deriving DecidableEq

namespace Token

/-- The name of an anchor, and what comes after it. -/
def anchorName? (cs : List Placed) : Option (String × List Placed) :=
  let (name, cs) := Tag.run isName cs
  let ends := Placed.wordEnds cs || cs.head?.any fun p =>
    p.char ∈ ['?', ':', ',', ']', '}', '%', '@', '\x60']
  if !name.isEmpty ∧ ends then some (String.ofList name, cs) else none

end Token

end GraphClient.Yaml
