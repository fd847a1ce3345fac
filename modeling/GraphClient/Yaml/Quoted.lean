import GraphClient.Url.Percent
import GraphClient.Yaml.Gap

/-!
# Quoted scalars

Between single quotes a quote is written twice and everything else stands for itself. Between double
quotes a backslash begins an escape. A quoted scalar may go on over several lines but not over a
document marker.
-/

namespace GraphClient.Yaml

/-- The two kinds of quotes. -/
inductive Quotes where
  | single
  | double
deriving DecidableEq

namespace Quotes

def char : Quotes → Char
  | single => '\''
  | double => '\x22'

/-- The character of an escape that is one character after the backslash. -/
def shortEscape? (c : Char) : Option Char :=
  match c with
  | '0' => some '\x00'
  | 'a' => some '\x07'
  | 'b' => some '\x08'
  | 't' | '\t' => some '\t'
  | 'n' => some '\n'
  | 'v' => some '\x0b'
  | 'f' => some '\x0c'
  | 'r' => some '\r'
  | 'e' => some '\x1b'
  | ' ' | '\x22' | '\'' | '\\' => some c
  | 'N' => some (Char.ofNat 0x85)
  | '_' => some (Char.ofNat 0xA0)
  | 'L' => some (Char.ofNat 0x2028)
  | 'P' => some (Char.ofNat 0x2029)
  | _ => none

/-- How many digits the number of a character has in a numeric escape. -/
def escapeWidth? (c : Char) : Option Nat :=
  match c with
  | 'x' => some 2
  | 'u' => some 4
  | 'U' => some 8
  | _ => none

/-- The character whose number is written in so many hexadecimal digits. -/
def numbered? (width : Nat) (cs : List Placed) : Option Char := do
  let digits ← (cs.take width).mapM fun p => Url.hexValue? p.char
  let n := digits.foldl (fun n d => n * 16 + d) 0
  if digits.length = width ∧ n.isValidChar then some (Char.ofNat n) else none

/-- The character of the escape that `c` begins, and what comes after it. -/
def escape? (c : Char) (rest : List Placed) : Option (Char × List Placed) :=
  match escapeWidth? c with
  | some width => (numbered? width rest).map fun c => (c, rest.drop width)
  | none => (shortEscape? c).map fun c => (c, rest)

/-- The text up to the closing quote after a gap, and what comes after the quote; at most as many
characters as `fuel`. -/
def body (quotes : Quotes) : (fuel : Nat) → Gap → List Placed → Option (List Char × List Placed)
  | 0, _, _ => none
  | _ + 1, _, [] => none
  | fuel + 1, gap, p :: rest =>
    if isBreak p.char then body quotes fuel gap.addBreak rest
    else if isBlank p.char then body quotes fuel (gap.addBlank p.char) rest
    else if Placed.isDocumentMarker (p :: rest) then none
    else if p.char = quotes.char then
      if quotes = single ∧ Placed.next '\'' rest then do
        let (text, rest) ← body quotes fuel {} rest.tail
        pure (gap.text ++ '\'' :: text, rest)
      else some (gap.text, rest)
    else if quotes = double ∧ p.char = '\\' then
      match rest with
      | [] => none
      | q :: rest =>
        if isBreak q.char then do
          let (text, rest) ← body quotes fuel { escaped := true } rest
          pure (gap.text ++ text, rest)
        else do
          let (c, rest) ← escape? q.char rest
          let (text, rest) ← body quotes fuel {} rest
          pure (gap.text ++ c :: text, rest)
    else do
      let (text, rest) ← body quotes fuel {} rest
      pure (gap.text ++ p.char :: text, rest)

def scalar? (quotes : Quotes) (cs : List Placed) : Option (List Char × List Placed) :=
  quotes.body (cs.length + 1) {} cs

end Quotes

end GraphClient.Yaml
