import GraphClient.Decimal.Shortest

/-!
# How a double is written

The digits of a double are the shortest ones that read back. A `Layout` says what is made of them:
between which exponents the number is written positionally, and how an exponent is marked elsewhere.
-/

namespace GraphClient.Decimal

structure Layout where
  /-- The least exponent of the first digit that is written positionally. -/
  minPositional : Int
  /-- The greatest exponent of the first digit that is written positionally. -/
  maxPositional : Int
  /-- What stands before an exponent. -/
  mark : List Char
  /-- What stands between the mark and a positive exponent. -/
  positiveSign : List Char

namespace Layout

/-- Digits with the point at the place of the exponent, at least one digit on either side. -/
def positional (d : Digits) : List Char :=
  if d.exponent < 0 then
    '0' :: '.' :: (List.replicate (-d.exponent - 1).toNat '0' ++ d.digits)
  else
    let size := d.exponent.toNat + 1
    let whole := d.digits.take size
    let fraction := d.digits.drop size
    whole ++ List.replicate (size - whole.length) '0' ++
      '.' :: (if fraction.isEmpty then ['0'] else fraction)

/-- One digit, the others after a point, and the exponent. -/
def scientific (layout : Layout) (d : Digits) : List Char :=
  let point := if d.digits.length ≤ 1 then [] else '.' :: d.digits.drop 1
  let sign := if d.exponent < 0 then ['-'] else layout.positiveSign
  d.digits.take 1 ++ point ++ layout.mark ++ sign ++ Nat.toDigits 10 d.exponent.natAbs

def render (layout : Layout) (bits : UInt64) : List Char :=
  let sign := if Binary64.isNegative bits then ['-'] else []
  if Binary64.isZero bits then sign ++ ['0', '.', '0']
  else
    let d := shortest bits
    if layout.minPositional ≤ d.exponent ∧ d.exponent ≤ layout.maxPositional then
      sign ++ positional d
    else sign ++ layout.scientific d

end Layout

end GraphClient.Decimal
