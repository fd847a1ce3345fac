/-!
# Labels beyond ASCII

The label of a domain is written in ASCII by listing its ASCII characters and then, in digits of base
36, where the other characters are inserted, in the order of their code points. Each insertion is a
number of variable length: its digits are weighted by thresholds that adapt to the numbers before.
`encode` writes a label and `decode?` reads one.
-/

namespace GraphClient.Url.Punycode

/-- The digit of a number below 36. -/
def digit (n : Nat) : Char := if n < 26 then Char.ofNat (97 + n) else Char.ofNat (22 + n)

/-- The threshold of the digit at position `k`, which counts in steps of 36. -/
def threshold (k bias : Nat) : Nat := max 1 (min 26 (k - bias))

/-- The digits of a number, the least significant first. -/
def digits (bias k n : Nat) : List Char :=
  if n < threshold k bias then [digit n]
  else
    digit (threshold k bias + (n - threshold k bias) % (36 - threshold k bias)) ::
      digits bias (k + 36) ((n - threshold k bias) / (36 - threshold k bias))
termination_by n
decreasing_by
  have low : 1 ≤ threshold k bias := by simp only [threshold]; omega
  have := Nat.div_le_self (n - threshold k bias) (36 - threshold k bias)
  omega

/-- Divides a number by 35 until it is small, and counts the divisions. -/
def reduce (n : Nat) : Nat × Nat :=
  if n ≤ 455 then (n, 0) else ((reduce (n / 35)).1, (reduce (n / 35)).2 + 1)
termination_by n

/-- The bias after a number has been written. -/
def adapt (delta points : Nat) (first : Bool) : Nat :=
  let scaled := if first then delta / 700 else delta / 2
  let (rest, divisions) := reduce (scaled + scaled / points)
  36 * divisions + 36 * rest / (rest + 38)

/-- What is remembered between two insertions. -/
structure State where
  delta : Nat := 0
  bias : Nat := 72
  written : Nat
  first : Bool := true
  output : List Char := []

/-- Passes a character of the label while characters with a code point are inserted. -/
def State.pass (codePoint : Nat) (s : State) (c : Char) : State :=
  if c.toNat < codePoint then { s with delta := s.delta + 1 }
  else if c.toNat = codePoint then
    { delta := 0, bias := adapt s.delta (s.written + 1) s.first, written := s.written + 1,
      first := false, output := s.output ++ digits s.bias 36 s.delta }
  else s

/-- Inserts the characters with these code points, which ascend from above `last`. -/
def insertAll (label : List Char) : Nat → State → List Nat → State
  | _, s, [] => s
  | last, s, codePoint :: rest =>
    let start := { s with delta := s.delta + (codePoint - last - 1) * (s.written + 1) }
    let done := label.foldl (State.pass codePoint) start
    insertAll label codePoint { done with delta := done.delta + 1 } rest

/-- The code points beyond ASCII of a label, ascending and each once. -/
def codePoints (label : List Char) : List Nat :=
  ((label.map Char.toNat).filter (0x7f < ·)).mergeSort.eraseDups

def encode (label : List Char) : List Char :=
  let ascii := label.filter fun c => c.toNat ≤ 0x7f
  let done := insertAll label 0x7f { written := ascii.length } (codePoints label)
  ascii ++ (if ascii.isEmpty then [] else ['-']) ++ done.output

def digitValue? (c : Char) : Option Nat :=
  if 'a' ≤ c ∧ c ≤ 'z' then some (c.toNat - 97)
  else if '0' ≤ c ∧ c ≤ '9' then some (c.toNat - 22)
  else none

/-- What is remembered between two digits that are read. -/
structure Insertions where
  output : List Char
  codePoint : Nat := 0x80
  /-- Where the last insertion was made, the ways round the output since included. -/
  index : Nat := 0
  bias : Nat := 72
  first : Bool := true
  /-- The number of the next insertion as far as its digits were read. -/
  delta : Nat := 0
  weight : Nat := 1
  /-- The position of the next digit, in steps of 36. -/
  position : Nat := 36

/-- Reads a digit; the last one of a number inserts a character. -/
def Insertions.read? (s : Insertions) (c : Char) : Option Insertions := do
  let d ← digitValue? c
  let delta := s.delta + d * s.weight
  let least := threshold s.position s.bias
  if least ≤ d then
    pure { s with delta := delta, weight := s.weight * (36 - least), position := s.position + 36 }
  else
    let points := s.output.length + 1
    let codePoint := s.codePoint + (s.index + delta) / points
    let index := (s.index + delta) % points
    if codePoint.isValidChar then
      pure {
        output := s.output.take index ++ Char.ofNat codePoint :: s.output.drop index
        codePoint := codePoint
        index := index + 1
        bias := adapt delta points s.first
        first := false }
    else none

def decode? (text : List Char) : Option (List Char) := do
  let digits := (text.reverse.takeWhile (· ≠ '-')).reverse
  let ascii := text.take (text.length - digits.length - 1)
  let s ← digits.foldlM Insertions.read? { output := ascii }
  if s.position = 36 then pure s.output else none

end GraphClient.Url.Punycode
