import GraphClient.Decimal.Binary64

/-!
# The shortest decimal digits of a double

The reals that round to a double form an interval around it, whose ends belong to it when the
fraction is even. `shortest` looks for the coarsest power of ten with a multiple in that interval:
for one digit, two digits and so on it tests the two multiples next to the value, and of two hits it
takes the nearer, an exact tie going to the even one. Seventeen digits always suffice.
-/

namespace GraphClient.Decimal

/-- A positive value with the interval that rounds to it, as fractions over one denominator. -/
structure RoundingInterval where
  value : Nat
  low : Nat
  high : Nat
  den : Nat
  /-- Whether the two ends round to the value too. -/
  closed : Bool

namespace RoundingInterval

/-- The interval of a finite double other than zero. All is counted in quarters of the last place. -/
def ofBits (bits : UInt64) : RoundingInterval :=
  let m := (Binary64.magnitude bits).1
  let q := (Binary64.magnitude bits).2 - 2
  let scale := Nat.pow 2 q.toNat
  { value := 4 * m * scale
    low := (4 * m - if Binary64.isLowerBoundaryCloser bits then 1 else 2) * scale
    high := (4 * m + 2) * scale
    den := Nat.pow 2 (-q).toNat
    closed := m % 2 == 0 }

/-- The exponent `d` with `10 ^ d ≤ value < 10 ^ (d + 1)`. -/
def decimalExponent (i : RoundingInterval) : Int :=
  if i.den ≤ i.value then ((Nat.toDigits 10 (i.value / i.den)).length : Int) - 1
  else -((Nat.toDigits 10 ((i.den - 1) / i.value)).length : Int)

/-- Whether `c · 10 ^ k` rounds to the value. -/
def covers (i : RoundingInterval) (c : Nat) (k : Int) : Bool :=
  let point := c * Nat.pow 10 k.toNat * i.den
  let low := i.low * Nat.pow 10 (-k).toNat
  let high := i.high * Nat.pow 10 (-k).toNat
  if i.closed then low ≤ point && point ≤ high else low < point && point < high

/-- The multiple of `10 ^ k` nearest to the value among its two neighbours, if one of them rounds
to the value. -/
def multipleAt (i : RoundingInterval) (k : Int) : Option Nat :=
  let num := i.value * Nat.pow 10 (-k).toNat
  let den := i.den * Nat.pow 10 k.toNat
  let below := num / den
  let above := below + 1
  match i.covers below k, i.covers above k with
  | false, false => none
  | true, false => some below
  | false, true => some above
  | true, true =>
    let down := num - below * den
    let up := above * den - num
    if down < up then some below
    else if up < down then some above
    else if below % 2 = 0 then some below else some above

/-- The first hit on grids that get ten times finer at every step. -/
def firstMultiple (i : RoundingInterval) : Nat → Int → Nat × Int
  | 0, k => (i.value * Nat.pow 10 (-k).toNat / (i.den * Nat.pow 10 k.toNat), k)
  | steps + 1, k =>
    match i.multipleAt k with
    | some c => (c, k)
    | none => firstMultiple i steps (k - 1)

end RoundingInterval

/-- Decimal digits without leading or trailing zeros, with the exponent of the first of them: the
number is `d₀.d₁d₂… · 10 ^ exponent`. -/
structure Digits where
  digits : List Char
  exponent : Int

/-- The shortest digits that read back as this finite double other than zero. -/
def shortest (bits : UInt64) : Digits :=
  let i := RoundingInterval.ofBits bits
  let hit := i.firstMultiple 17 i.decimalExponent
  let digits := Nat.toDigits 10 hit.1
  { digits := (digits.reverse.dropWhile (· = '0')).reverse
    exponent := hit.2 + (digits.length : Int) - 1 }

end GraphClient.Decimal
