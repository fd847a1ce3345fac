/-!
# Finite binary floating point numbers, by their bits

A double is kept as its 64 bits: a sign, eleven bits of exponent and fifty-two bits of fraction. Its
magnitude is `m · 2 ^ q` for the natural number `m` and the integer `q` of `magnitude`. Nothing here
computes with `Float`: every statement about a double is one about `m` and `q`.
-/

namespace GraphClient.Binary64

def isNegative (bits : UInt64) : Bool := Nat.pow 2 63 ≤ bits.toNat

def unsigned (bits : UInt64) : Nat := bits.toNat % Nat.pow 2 63

def exponentBits (bits : UInt64) : Nat := unsigned bits / Nat.pow 2 52

/-- The fifty-two bits of the fraction. -/
def fractionBits (bits : UInt64) : Nat := unsigned bits % Nat.pow 2 52

def isZero (bits : UInt64) : Bool := unsigned bits == 0

/-- The magnitude `m · 2 ^ q` of a finite double, as the pair of `m` and `q`. -/
def magnitude (bits : UInt64) : Nat × Int :=
  if exponentBits bits = 0 then (fractionBits bits, -1074)
  else (fractionBits bits + Nat.pow 2 52, (exponentBits bits : Int) - 1075)

/-- Whether the neighbour below is only half as far away as the one above. -/
def isLowerBoundaryCloser (bits : UInt64) : Bool := fractionBits bits == 0 && exponentBits bits > 1

/-- Numerical equality: the two zeros are equal, other finite doubles only to themselves. -/
def equal (a b : UInt64) : Bool := a == b || (isZero a && isZero b)

def ofSign (negative : Bool) (magnitudeBits : Nat) : UInt64 :=
  UInt64.ofNat (if negative then Nat.pow 2 63 + magnitudeBits else magnitudeBits)

@[simp] theorem equal_self (a : UInt64) : equal a a = true := by simp [equal]

theorem equal_comm (a b : UInt64) : equal a b = equal b a := by
  rw [equal, equal, Bool.and_comm, Bool.beq_comm]

theorem equal_trans {a b c : UInt64} (hab : equal a b = true) (hbc : equal b c = true) :
    equal a c = true := by
  simp only [equal, Bool.or_eq_true, beq_iff_eq, Bool.and_eq_true] at *
  rcases hab with rfl | ⟨ha, hb⟩
  · exact hbc
  · rcases hbc with rfl | ⟨_, hc⟩
    · exact .inr ⟨ha, hb⟩
    · exact .inr ⟨ha, hc⟩

end GraphClient.Binary64
