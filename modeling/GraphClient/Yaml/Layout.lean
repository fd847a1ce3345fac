import GraphClient.Yaml.Block
import GraphClient.Yaml.Quoted
import GraphClient.Yaml.Token

/-!
# The layout of a text

The marks of structure of a YAML text are partly in its layout. A collection without brackets is open
as long as lines are indented as far as its first one. A key without a mark of its own is only known
by the colon after it, so wherever a key may begin it is remembered how many words there were before;
the colon has to come on the same line and within 1024 characters.

`Token.ofText?` is the words of a text in the order in which they are read, those of the layout among
them.
-/

namespace GraphClient.Yaml

/-- Where a key may have begun. -/
structure KeyStart where
  place : Placed
  /-- How many words come before it. -/
  position : Nat
  required : Bool

/-- What is known of a text up to a place in it. -/
structure Layout where
  tokens : List Token := []
  /-- The columns of the open collections without brackets, the innermost first. -/
  columns : List Nat := []
  /-- Whether a key may begin here. -/
  keyAllowed : Bool := true
  /-- The key that may have begun within the innermost brackets. -/
  keyStart : Option KeyStart := none
  /-- The keys that may have begun around each pair of open brackets. -/
  outerStarts : List (Option KeyStart) := []
  /-- The index right after the last quoted scalar, where a colon need not end a word. -/
  quoteEnd : Option Nat := none

namespace Layout

def inFlow (l : Layout) : Bool := !l.outerStarts.isEmpty

/-- How far to the right of the open collections a nested one begins. -/
def least (l : Layout) : Nat :=
  match l.columns with
  | [] => 0
  | column :: _ => column + 1

/-- Where a scalar stands that begins here. -/
def setting (l : Layout) : Setting := ⟨l.inFlow, l.least⟩

def push (l : Layout) (t : Token) : Layout := { l with tokens := l.tokens ++ [t] }

/-- Adds words after the first `position` words. -/
def insertAt (l : Layout) (position : Nat) (ts : List Token) : Layout :=
  { l with tokens := l.tokens.take position ++ ts ++ l.tokens.drop position }

/-- Whether a key may begin here. -/
def allowKey (l : Layout) (allowed : Bool) : Layout := { l with keyAllowed := allowed }

/-- Ends the open collections of these columns, from the innermost on; brackets end none. -/
def endBlocks (l : Layout) (ends : Nat → Bool) : Layout :=
  if l.inFlow then l
  else
    { l with
      tokens := l.tokens ++ (l.columns.takeWhile ends).map fun _ => .blockEnd
      columns := l.columns.dropWhile ends }

/-- Begins a collection without brackets at a column to the right of the open ones, after the first
`position` words. -/
def beginBlock (l : Layout) (column position : Nat) (t : Token) : Layout :=
  if l.inFlow ∨ column < l.least then l
  else { l.insertAt position [t] with columns := column :: l.columns }

/-- There is no key that may have begun; one that has to be a key is an error. -/
def dropKey? (l : Layout) : Option Layout :=
  if l.keyStart.any (·.required) then none else some { l with keyStart := none }

/-- A key may begin here, if one is allowed. In brackets it has to be a key when it is not indented
further than the collection around. -/
def offerKey? (l : Layout) (p : Placed) : Option Layout :=
  if l.keyAllowed then do
    let l ← l.dropKey?
    pure { l with
      keyStart := some ⟨p, l.tokens.length, l.inFlow && l.columns.head? == some p.column⟩ }
  else some l

/-- Whether a key that began there can no longer be followed by a colon here. -/
def KeyStart.isStale (start : KeyStart) (p : Placed) : Bool :=
  start.place.line < p.line || start.place.index + 1024 < p.index

def dropStaleKeys? (l : Layout) (p : Placed) : Option Layout :=
  let stale := fun (start : Option KeyStart) => start.any (KeyStart.isStale · p)
  if (l.keyStart :: l.outerStarts).any fun start => stale start && start.any (·.required) then none
  else
    some { l with
      keyStart := if stale l.keyStart then none else l.keyStart
      outerStarts := l.outerStarts.map fun start => if stale start then none else start }

/-- Passes over what is between words. Line breaks outside of brackets let a key begin, and a tab is
only passed over where no key may begin. -/
def skipBlanks (l : Layout) (inComment : Bool) : List Placed → Layout × List Placed
  | [] => (l, [])
  | p :: rest =>
    if isBreak p.char then (l.allowKey (l.keyAllowed || !l.inFlow)).skipBlanks false rest
    else if inComment || p.char = ' ' || (p.char = '\t' && (l.inFlow || !l.keyAllowed)) then
      l.skipBlanks inComment rest
    else if p.char = '#' then l.skipBlanks true rest
    else (l, p :: rest)

/-- A mark or a directive between documents. -/
def documentMark? (l : Layout) (t : Token) : Option Layout :=
  ((l.endBlocks fun _ => true).dropKey?).map fun l => (l.allowKey false).push t

def openFlow? (l : Layout) (p : Placed) (t : Token) : Option Layout := do
  let l ← l.offerKey? p
  let l := { l with keyStart := none, outerStarts := l.keyStart :: l.outerStarts }
  pure ((l.allowKey true).push t)

def closeFlow? (l : Layout) (t : Token) : Option Layout := do
  let l ← l.dropKey?
  let l := match l.outerStarts with
    | [] => l
    | start :: starts => { l with keyStart := start, outerStarts := starts }
  pure ((l.allowKey false).push t)

/-- The dash before an item, which is a word of a collection without brackets. -/
def item? (l : Layout) (p : Placed) : Option Layout :=
  if l.inFlow ∨ !l.keyAllowed then none
  else do
    let l ← (l.beginBlock p.column l.tokens.length .blockSequenceStart).dropKey?
    pure ((l.allowKey true).push .item)

/-- The mark before a key. -/
def key? (l : Layout) (p : Placed) : Option Layout :=
  if !l.inFlow ∧ !l.keyAllowed then none
  else do
    let l ← (l.beginBlock p.column l.tokens.length .blockMappingStart).dropKey?
    pure ((l.allowKey !l.inFlow).push .key)

/-- The colon before a value: it makes a key of what may have begun as one. -/
def value? (l : Layout) (p : Placed) : Option Layout :=
  match l.keyStart with
  | some start =>
    let l := (l.insertAt start.position [.key]).beginBlock start.place.column start.position
      .blockMappingStart
    some (({ l with keyStart := none }.allowKey false).push .value)
  | none =>
    if !l.inFlow ∧ !l.keyAllowed then none
    else
      let l := l.beginBlock p.column l.tokens.length .blockMappingStart
      some ((l.allowKey !l.inFlow).push .value)

/-- A word of a node, and what comes after it: an anchor, an alias, a tag or a scalar. -/
def nodeWord? (l : Layout) (p : Placed) (rest : List Placed) : Option (Layout × List Placed) := do
  let l ← l.offerKey? p
  let quoted (quotes : Quotes) : Option (Layout × List Placed) := do
    let (text, rest) ← quotes.scalar? rest
    let l := { l with quoteEnd := rest.head?.map Placed.index }
    pure ((l.allowKey false).push (.scalar ⟨String.ofList text, false⟩), rest)
  let block (folded : Bool) : Option (Layout × List Placed) := do
    let (text, rest) ← Block.scalar? folded l.setting rest
    pure ((l.allowKey true).push (.scalar ⟨String.ofList text, false⟩), rest)
  if p.char = '*' then
    (Token.anchorName? rest).map fun (name, rest) => ((l.allowKey false).push (.alias name), rest)
  else if p.char = '&' then
    (Token.anchorName? rest).map fun (name, rest) => ((l.allowKey false).push (.anchor name), rest)
  else if p.char = '!' then
    (Tag.read? rest).map fun (tag, rest) => ((l.allowKey false).push (.tag tag), rest)
  else if p.char = '\'' then quoted .single
  else if p.char = '\x22' then quoted .double
  else if p.char = '|' ∧ !l.inFlow then block false
  else if p.char = '>' ∧ !l.inFlow then block true
  else if p.char ∈ ['%', '@', '\x60'] then none
  else do
    let (text, gap, rest) ← Plain.body l.setting {} (p :: rest)
    pure ((l.allowKey gap.onNewLine).push (.scalar ⟨String.ofList text, true⟩), rest)

/-- A word, and what comes after it. -/
def word? (l : Layout) (p : Placed) (rest : List Placed) : Option (Layout × List Placed) :=
  let wordEnds := Placed.wordEnds rest
  let colonEnds := wordEnds ||
    (l.inFlow && ((rest.head?.any fun q => isFlow q.char) || l.quoteEnd == some p.index))
  if p.column = 0 ∧ p.char = '%' then do
    let rest ← Directive.read? rest
    (l.documentMark? .directive).map (·, rest)
  else if Placed.isMarker '-' (p :: rest) then (l.documentMark? .documentStart).map (·, rest.drop 2)
  else if Placed.isMarker '.' (p :: rest) then (l.documentMark? .documentEnd).map (·, rest.drop 2)
  else if p.char = '[' then (l.openFlow? p .flowSequenceStart).map (·, rest)
  else if p.char = '{' then (l.openFlow? p .flowMappingStart).map (·, rest)
  else if p.char = ']' then (l.closeFlow? .flowSequenceEnd).map (·, rest)
  else if p.char = '}' then (l.closeFlow? .flowMappingEnd).map (·, rest)
  else if p.char = ',' then l.dropKey?.map fun l => ((l.allowKey true).push .comma, rest)
  else if p.char = '-' ∧ wordEnds then (l.item? p).map (·, rest)
  else if p.char = '?' ∧ wordEnds then (l.key? p).map (·, rest)
  else if p.char = ':' ∧ colonEnds then (l.value? p).map (·, rest)
  else l.nodeWord? p rest

/-- The words of the rest of a text, at most as many as `fuel`. -/
def words? : (fuel : Nat) → Layout → List Placed → Option (List Token)
  | 0, _, _ => none
  | fuel + 1, l, cs =>
    match l.skipBlanks false cs with
    | (l, []) => ((l.endBlocks fun _ => true).dropKey?).map (·.tokens)
    | (l, p :: rest) => do
      let l ← l.dropStaleKeys? p
      let (l, rest) ← (l.endBlocks (p.column < ·)).word? p rest
      words? fuel l rest

end Layout

/-- The words of a text, none when a word of it cannot be read. -/
def Token.ofText? (text : String) : Option (List Token) :=
  let cs := place text
  Layout.words? (cs.length + 1) {} cs

end GraphClient.Yaml
