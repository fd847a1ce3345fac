import GraphClient.Yaml.Gap

/-!
# Plain scalars

A plain scalar is written without quotes. It ends before a colon that ends a word, before a comment,
before a document marker, in brackets before what structures them, and outside of brackets before a
line that is not indented enough.
-/

namespace GraphClient.Yaml

structure Setting where
  inFlow : Bool
  /-- The least column of the further lines of a scalar outside of brackets. -/
  least : Nat

namespace Plain

/-- Whether a scalar ends at a character that is not in a gap. -/
def endsAt (setting : Setting) (gap : Gap) (p : Placed) (rest : List Placed) : Bool :=
  (p.char = ':' &&
      (Placed.wordEnds rest || (setting.inFlow && rest.head?.any fun q => isFlow q.char)))
    || (setting.inFlow && isFlow p.char)
    || (!gap.isEmpty && (p.char = '#' || Placed.isDocumentMarker (p :: rest) ||
      (!setting.inFlow && p.column < setting.least)))

/-- The text of a scalar that goes on after a gap, the gap at its end, and what comes after. A line
must not be indented with a tab. -/
def body (setting : Setting) (gap : Gap) :
    List Placed → Option (List Char × Gap × List Placed)
  | [] => some ([], gap, [])
  | p :: rest =>
    if isBreak p.char then body setting gap.addBreak rest
    else if isBlank p.char then
      if gap.onNewLine ∧ p.char = '\t' ∧ p.column < setting.least then none
      else body setting (gap.addBlank p.char) rest
    else if endsAt setting gap p rest then some ([], gap, p :: rest)
    else do
      let (text, last, rest) ← body setting {} rest
      pure (gap.text ++ p.char :: text, last, rest)

end Plain

end GraphClient.Yaml
