import GraphClient.Yaml.Plain

/-!
# Block scalars

A block scalar is introduced by a header and written on the indented lines below it. How far they are
indented is told by the header or by the deepest of the lines up to the first that is not empty. A
literal scalar keeps its line breaks; a folded one joins two lines that do not begin with a blank by
a space. The header also tells what becomes of the line breaks at the end.
-/

namespace GraphClient.Yaml

/-- What becomes of the line breaks at the end of a block scalar. -/
inductive Chomping where
  /-- One is kept. -/
  | clip
  /-- None is kept. -/
  | strip
  /-- All are kept. -/
  | keep

/-- The first line of a block scalar. -/
structure BlockHeader where
  chomping : Chomping := .clip
  /-- How many columns further than around it the text is indented, if that is told. -/
  further : Option Nat := none

namespace BlockHeader

/-- A sign of what becomes of the line breaks at the end. -/
def chomping? (cs : List Placed) : Option (Chomping × List Placed) :=
  if Placed.next '+' cs then some (.keep, cs.tail)
  else if Placed.next '-' cs then some (.strip, cs.tail)
  else none

/-- A digit that tells the indentation; none of the two is there, and a zero is an error. -/
def further? : List Placed → Option (Option Nat × List Placed)
  | [] => some (none, [])
  | p :: rest =>
    if p.char = '0' then none
    else if p.char.isDigit then some (some (p.char.toNat - 48), rest)
    else some (none, p :: rest)

/-- A header after its introducing character, with the lines below it. -/
def read? (cs : List Placed) : Option (BlockHeader × List Placed) := do
  let (header, cs) ← match chomping? cs with
    | some (chomping, cs) => (further? cs).map fun (further, cs) =>
        ((⟨chomping, further⟩ : BlockHeader), cs)
    | none => (further? cs).map fun (further, cs) =>
        match further, chomping? cs with
        | some _, some (chomping, cs) => (⟨chomping, further⟩, cs)
        | _, _ => (⟨.clip, further⟩, cs)
  let cs ← Placed.toLineEnd? cs
  pure (header, cs.tail)

end BlockHeader

namespace Block

/-- Passes over empty lines and the indentation of the first other one: how many line breaks there
are, the deepest column, and what comes after. Indentation goes up to a column if one is given, and
contains no tab. -/
def emptyLines (column : Option Nat) (breaks deepest : Nat) :
    List Placed → Option (Nat × Nat × List Placed)
  | [] => some (breaks, deepest, [])
  | p :: rest =>
    let indents := column.all (p.column < ·)
    if p.char = ' ' ∧ indents then emptyLines column breaks (max deepest (p.column + 1)) rest
    else if p.char = '\t' ∧ indents then none
    else if isBreak p.char then emptyLines column (breaks + 1) (max deepest p.column) rest
    else some (breaks, max deepest p.column, p :: rest)

/-- What comes between a line that is being read and the one before it. -/
structure Before where
  /-- Whether there is a line before it. -/
  line : Bool := false
  /-- Whether that line begins with a blank. -/
  blank : Bool := false
  empty : Nat

def Before.separator (before : Before) (folded blank : Bool) : List Char :=
  (if !before.line then []
    else if folded && !before.blank && !blank then if before.empty = 0 then [' '] else []
    else ['\n'])
  ++ List.replicate before.empty '\n'

def Before.tail (before : Before) : Chomping → List Char
  | .clip => if before.line then ['\n'] else []
  | .strip => []
  | .keep => (if before.line then ['\n'] else []) ++ List.replicate before.empty '\n'

/-- The text of the lines that begin at a column, at most as many as `fuel`, and what comes after. -/
def lines (folded : Bool) (chomping : Chomping) (column : Nat) :
    (fuel : Nat) → Before → List Placed → Option (List Char × List Placed)
  | 0, _, _ => none
  | fuel + 1, before, cs =>
    if cs.head?.any (·.column = column) then do
      let blank := cs.head?.any fun p => isBlank p.char
      let line := before.separator folded blank ++ Placed.lineRest cs
      match Placed.skipLine cs with
      | [] => pure (line, [])
      | _ :: rest => do
        let (empty, _, rest) ← emptyLines (some column) 0 0 rest
        let (text, rest) ← lines folded chomping column fuel ⟨true, blank, empty⟩ rest
        pure (line ++ text, rest)
    else some (before.tail chomping, cs)

/-- A scalar after its introducing character. -/
def scalar? (folded : Bool) (setting : Setting) (cs : List Placed) :
    Option (List Char × List Placed) := do
  let (header, cs) ← BlockHeader.read? cs
  let column := header.further.map (setting.least - 1 + ·)
  let (empty, deepest, cs) ← emptyLines column 0 0 cs
  let column := column.getD (max (max deepest setting.least) 1)
  lines folded header.chomping column (cs.length + 1) { empty } cs

end Block

end GraphClient.Yaml
