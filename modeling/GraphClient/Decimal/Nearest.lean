import GraphClient.Decimal.Binary64

/-!
# Reading a decimal number as the nearest double

`nearest digits exponent` is the double closest to `digits · 10 ^ exponent`; of two equally close
ones it is the one with the even fraction. The quotient is formed exactly in natural numbers. A
value that rounds to `2 ^ 1024` or more has no finite double.
-/

namespace GraphClient.Decimal

/-- The quotient rounded to the nearest natural number, a half to the even one. -/
def roundQuotient (num den : Nat) : Nat :=
  let floor := num / den
  let rest := 2 * (num % den)
  if rest < den then floor
  else if den < rest then floor + 1
  else if floor % 2 = 0 then floor else floor + 1

/-- The bits of the double nearest to the fraction `num / den`, none if it is too large. -/
def nearestOfFraction (num den : Nat) : Option Nat :=
  if num = 0 then some 0
  else
    let guess : Int := (num.log2 : Int) - (den.log2 : Int) - 52
    let floorAt (q : Int) : Nat := (num * Nat.pow 2 (-q).toNat) / (den * Nat.pow 2 q.toNat)
    let normal := if floorAt guess < Nat.pow 2 52 then guess - 1 else guess
    let q := max normal (-1074)
    let m := roundQuotient (num * Nat.pow 2 (-q).toNat) (den * Nat.pow 2 q.toNat)
    let bits := if m < Nat.pow 2 52 then m else (q + 1074).toNat * Nat.pow 2 52 + m
    if bits < 2047 * Nat.pow 2 52 then some bits else none

/-- The magnitude bits of the double nearest to `digits · 10 ^ exponent`, none on overflow. An
exponent far outside the range of doubles is decided by the number of digits alone. -/
def nearest (digits : Nat) (exponent : Int) : Option Nat :=
  if digits = 0 then some 0
  else
    let size : Int := (Nat.toDigits 10 digits).length
    if size + exponent > 400 then none
    else if size + exponent < -400 then some 0
    else nearestOfFraction (digits * Nat.pow 10 exponent.toNat) (Nat.pow 10 (-exponent).toNat)

@[simp] theorem nearest_zero (exponent : Int) : nearest 0 exponent = some 0 := rfl

end GraphClient.Decimal
