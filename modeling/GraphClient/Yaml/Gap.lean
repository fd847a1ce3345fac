import GraphClient.Yaml.Placed

/-!
# Gaps between words

Inside a scalar, blanks and line breaks form gaps between words. A gap within a line stands for its
blanks. A gap over lines drops the blanks at both ends of a line: one line break stands for a space,
and of more than one all but the first are kept. A line break that is escaped stands for nothing at
all, and every break after it is kept.
-/

namespace GraphClient.Yaml

structure Gap where
  /-- The blanks before the first line break. -/
  blanks : List Char := []
  /-- How many line breaks there are, an escaped one apart. -/
  breaks : Nat := 0
  /-- Whether the gap begins with an escaped line break. -/
  escaped : Bool := false

namespace Gap

def onNewLine (gap : Gap) : Bool := gap.escaped || gap.breaks != 0

/-- Whether the gap is none. -/
def isEmpty (gap : Gap) : Bool := gap.blanks.isEmpty && !gap.onNewLine

/-- The gap with a further blank. -/
def addBlank (gap : Gap) (c : Char) : Gap :=
  if gap.onNewLine then gap else { gap with blanks := gap.blanks ++ [c] }

/-- The gap with a further line break. -/
def addBreak (gap : Gap) : Gap := { gap with breaks := gap.breaks + 1 }

def text (gap : Gap) : List Char :=
  if gap.escaped then List.replicate gap.breaks '\n'
  else
    match gap.breaks with
    | 0 => gap.blanks
    | 1 => [' ']
    | n + 2 => List.replicate (n + 1) '\n'

@[simp] theorem text_empty : ({} : Gap).text = [] := rfl

end Gap

end GraphClient.Yaml
