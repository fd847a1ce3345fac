import GraphClient.Assoc
import GraphClient.Yaml.Layout

/-!
# Trees of YAML texts

A text with one document is a tree of scalars, sequences and mappings. Tags are kept on scalars alone,
and in place of an alias stands the node of its anchor. A node must not contain itself.

`Node.parse?` is the tree of a text. It reads the words of the text by recursion on a number of steps
that every text stays below.
-/

namespace GraphClient.Yaml

inductive Node where
  | scalar (tag : Option Tag) (scalar : Scalar)
  | sequence (items : List Node)
  /-- Keys with their values, in order and repeated keys included. -/
  | mapping (entries : List (Node × Node))

namespace Node

/-- What stands where a node is left out. -/
def missing : Node := .scalar none ⟨"~", true⟩

namespace Reader

/-- The words that remain, and the nodes of anchors; a node that is being read has none yet. -/
structure Source where
  tokens : List Token
  anchors : Assoc String (Option Node) := []

abbrev Reading := StateT Source Option

/-- The next word, if there is one. -/
def peek : Reading (Option Token) := return (← get).tokens.head?

def skip : Reading Unit := modify fun source => { source with tokens := source.tokens.tail }

/-- Passes over the next word if it is this one, and whether it is. -/
def accept (t : Token) : Reading Bool := do
  if (← peek) = some t then
    skip
    return true
  else return false

/-- Passes over this word, which must come next. -/
def expect (t : Token) : Reading Unit := do
  unless ← accept t do failure

/-- Whether one of these words comes next. -/
def isBefore (ts : List Token) : Reading Bool := return (← peek).any (· ∈ ts)

def setAnchor (name : String) (node : Option Node) : Reading Unit :=
  modify fun source => { source with anchors := Assoc.insert source.anchors name node }

def anchored (name : String) : Reading Node := do
  match Assoc.get? (← get).anchors name with
  | some (some node) => return node
  | _ => failure

/-- An anchor, if one comes next. -/
def anchor : Reading (Option String) := do
  match ← peek with
  | some (.anchor name) =>
    skip
    setAnchor name none
    return some name
  | _ => return none

/-- A tag, if one comes next. -/
def tag : Reading (Option Tag) := do
  match ← peek with
  | some (.tag tag) =>
    skip
    return some tag
  | _ => return none

/-- An anchor and a tag in either order, each if there is one. -/
def properties : Reading (Option String × Option Tag) := do
  match ← anchor with
  | some name => return (some name, ← tag)
  | none =>
    match ← tag with
    | some t => return (← anchor, some t)
    | none => return (none, none)

mutual

/-- A node; collections without brackets are only read in a block, and one that begins with an item
only where items need not be indented. -/
def node : (fuel : Nat) → (block compact : Bool) → Reading Node
  | 0, _, _ => failure
  | fuel + 1, block, compact => do
    if let some (.alias name) ← peek then
      skip
      anchored name
    else
      let (name, tag) ← properties
      let found ← content fuel block compact tag (name.isSome || tag.isSome)
      if let some name := name then setAnchor name (some found)
      return found

/-- What comes after the tag and the anchor of a node; it may be left out if there is one of them. -/
def content : (fuel : Nat) → (block compact : Bool) → Option Tag → (optional : Bool) → Reading Node
  | 0, _, _, _, _ => failure
  | fuel + 1, block, compact, tag, optional => do
    match ← peek with
    | some (.scalar s) =>
      skip
      return .scalar tag s
    | some .flowSequenceStart =>
      skip
      return .sequence (← flowItems fuel true)
    | some .flowMappingStart =>
      skip
      return .mapping (← flowEntries fuel true)
    | next =>
      if block ∧ next = some .blockSequenceStart then
        skip
        return .sequence (← blockItems fuel)
      else if block ∧ next = some .blockMappingStart then
        skip
        return .mapping (← blockEntries fuel)
      else if compact ∧ next = some .item then return .sequence (← compactItems fuel)
      else if optional then return .scalar tag ⟨"", true⟩
      else failure

/-- A node in a block that is left out before one of these words. -/
def blockNode : (fuel : Nat) → (compact : Bool) → List Token → Reading Node
  | 0, _, _ => failure
  | fuel + 1, compact, ends => do
    if ← isBefore ends then return missing else node fuel true compact

/-- A node in brackets that is left out before one of these words. -/
def flowNode : (fuel : Nat) → List Token → Reading Node
  | 0, _ => failure
  | fuel + 1, ends => do
    if ← isBefore ends then return missing else node fuel false false

/-- The items of a sequence without brackets up to its end. -/
def blockItems : (fuel : Nat) → Reading (List Node)
  | 0 => failure
  | fuel + 1 => do
    if ← accept .blockEnd then return []
    expect .item
    let item ← blockNode fuel false [.item, .blockEnd]
    return item :: (← blockItems fuel)

/-- The items of a sequence that is not indented. -/
def compactItems : (fuel : Nat) → Reading (List Node)
  | 0 => failure
  | fuel + 1 => do
    if ← accept .item then
      let item ← blockNode fuel false [.item, .key, .value, .blockEnd]
      return item :: (← compactItems fuel)
    else return []

/-- The keys and values of a mapping without brackets up to its end. -/
def blockEntries : (fuel : Nat) → Reading (List (Node × Node))
  | 0 => failure
  | fuel + 1 => do
    if ← accept .blockEnd then return []
    let key ←
      if ← accept .key then blockNode fuel true [.key, .value, .blockEnd]
      else if ← isBefore [.value] then pure missing
      else failure
    let value ←
      if ← accept .value then blockNode fuel true [.key, .value, .blockEnd] else pure missing
    return (key, value) :: (← blockEntries fuel)

/-- The items of a sequence in brackets up to its end. An item with the mark of a key is a mapping of
that key alone. -/
def flowItems : (fuel : Nat) → (first : Bool) → Reading (List Node)
  | 0, _ => failure
  | fuel + 1, first => do
    if ← accept .flowSequenceEnd then return []
    unless first do expect .comma
    if ← accept .flowSequenceEnd then return []
    let item ←
      if ← accept .key then
        let key ← node fuel false false
        let value ←
          if ← accept .value then flowNode fuel [.comma, .flowSequenceEnd] else pure missing
        pure (.mapping [(key, value)])
      else node fuel false false
    return item :: (← flowItems fuel false)

/-- The keys and values of a mapping in brackets up to its end. -/
def flowEntries : (fuel : Nat) → (first : Bool) → Reading (List (Node × Node))
  | 0, _ => failure
  | fuel + 1, first => do
    if ← accept .flowMappingEnd then return []
    unless first do expect .comma
    if ← accept .flowMappingEnd then return []
    let (key, mayHaveValue) ←
      if ← accept .key then pure (← flowNode fuel [.value, .comma, .flowMappingEnd], true)
      else if ← isBefore [.value] then pure (missing, true)
      else pure (← node fuel false false, false)
    let hasValue ← if mayHaveValue then accept .value else pure false
    let value ← if hasValue then flowNode fuel [.comma, .flowMappingEnd] else pure missing
    return (key, value) :: (← flowEntries fuel false)

end

/-- Passes over words of one kind, at most as many as `fuel`. -/
def skipAll (t : Token) : (fuel : Nat) → Reading Unit
  | 0 => return ()
  | fuel + 1 => do
    if ← accept t then skipAll t fuel

/-- The node of the only document. Directives have to be followed by the mark of a document, after
which the node may be left out. -/
def document (fuel : Nat) : Reading Node := do
  let root ←
    if ← isBefore [.directive, .documentStart] then
      skipAll .directive fuel
      expect .documentStart
      if (← peek).isNone ∨ (← isBefore [.directive, .documentStart, .documentEnd]) then
        pure missing
      else node fuel true false
    else node fuel true false
  skipAll .documentEnd fuel
  if (← peek).isNone then return root else failure

end Reader

/-- The tree of a list of words, none when they are not one document. -/
def ofTokens? (tokens : List Token) : Option Node :=
  ((Reader.document (4 * tokens.length + 4)).run { tokens }).map (·.1)

/-- The tree of a text, none when it is not one document. -/
def parse? (text : String) : Option Node := (Token.ofText? text).bind ofTokens?

end Node

end GraphClient.Yaml
