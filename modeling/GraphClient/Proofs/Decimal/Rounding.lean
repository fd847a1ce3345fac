import GraphClient.Decimal.Shortest
import Mathlib.Algebra.Order.Field.Power
import Mathlib.Data.Rat.Cast.Order
import Mathlib.Tactic.FieldSimp
import Mathlib.Tactic.Linarith
import Mathlib.Tactic.NormNum
import Mathlib.Tactic.Positivity
import Mathlib.Tactic.Ring

/-!
# The numbers that round to a double

`RoundingInterval.Contains` says of a rational number that it rounds to the value of an interval;
`covers` is the same for the multiples of a power of ten (`covers_iff`). The intervals of doubles of
different magnitudes have no number in common (`eq_of_contains`): they touch at most at their ends,
and then the fraction of one of the two doubles is odd, so that the end does not belong to it.

The digits that are written for a double stand for a number of its interval (`contains_hit`). On the
grids before the last one this is what is tested. The last grid has eighteen digits, and there the
multiple below the value is nearer to it than any end of its interval, for a double has less than
`2 ^ 53` places.
-/

namespace GraphClient

namespace Binary64

theorem fractionBits_lt (bits : UInt64) : fractionBits bits < 2 ^ 52 :=
  Nat.mod_lt _ (by decide)

theorem magnitude_lt (bits : UInt64) : (magnitude bits).1 < 2 ^ 53 := by
  have h := fractionBits_lt bits
  rw [magnitude]
  split
  · exact h.trans (by decide)
  · simp only [Nat.pow_eq]
    omega

theorem unsigned_eq (bits : UInt64) :
    unsigned bits = exponentBits bits * 2 ^ 52 + fractionBits bits :=
  (Nat.div_add_mod' _ _).symm

theorem magnitude_pos {bits : UInt64} (h : isZero bits = false) : 0 < (magnitude bits).1 := by
  have hne : unsigned bits ≠ 0 := by simpa [isZero] using h
  have heq := unsigned_eq bits
  rw [magnitude]
  split
  · next hzero =>
    rw [hzero] at heq
    omega
  · simp only [Nat.pow_eq]
    omega

theorem magnitude_eq (bits : UInt64) :
    magnitude bits = (fractionBits bits + (if exponentBits bits = 0 then 0 else 2 ^ 52),
      ((max (exponentBits bits) 1 : ℕ) : ℤ) - 1075) := by
  rw [magnitude]
  split
  · next h => simp [h]
  · next h => simp [Nat.max_eq_left (Nat.one_le_iff_ne_zero.mpr h)]

/-- Doubles are equal when their magnitudes and their signs are. -/
theorem eq_of_unsigned_eq {a b : UInt64} (h : unsigned a = unsigned b)
    (hsign : isNegative a = isNegative b) : a = b := by
  have ha := a.toNat_lt
  have hb := b.toNat_lt
  simp only [unsigned, isNegative, Nat.pow_eq, decide_eq_decide] at h hsign
  exact UInt64.toNat_inj.mp (by omega)

end Binary64

namespace Decimal

namespace RoundingInterval

open Binary64

/-- Whether a number rounds to the value. -/
def Contains (i : RoundingInterval) (x : ℚ) : Prop :=
  if i.closed then (i.low : ℚ) / i.den ≤ x ∧ x ≤ (i.high : ℚ) / i.den
  else (i.low : ℚ) / i.den < x ∧ x < (i.high : ℚ) / i.den

theorem Contains.le {i : RoundingInterval} {x : ℚ} (h : i.Contains x) :
    (i.low : ℚ) / i.den ≤ x ∧ x ≤ (i.high : ℚ) / i.den := by
  rw [Contains] at h
  split at h
  · exact h
  · exact ⟨h.1.le, h.2.le⟩

/-- An end that rounds to the value belongs to the interval. -/
theorem Contains.closed {i : RoundingInterval} {x : ℚ} (h : i.Contains x)
    (hend : x ≤ (i.low : ℚ) / i.den ∨ (i.high : ℚ) / i.den ≤ x) : i.closed = true := by
  by_contra hopen
  rw [Contains, if_neg hopen] at h
  rcases hend with hlow | hhigh
  · exact absurd h.1 (not_lt.mpr hlow)
  · exact absurd h.2 (not_lt.mpr hhigh)

theorem contains_of_lt {i : RoundingInterval} {x : ℚ} (hlow : (i.low : ℚ) / i.den < x)
    (hhigh : x < (i.high : ℚ) / i.den) : i.Contains x := by
  rw [Contains]
  split
  · exact ⟨hlow.le, hhigh.le⟩
  · exact ⟨hlow, hhigh⟩

section Powers

variable {b : ℚ} (hb : 0 < b) (k : ℤ)

include hb

/-- A power with a negative exponent is one over a power with a positive one. -/
theorem zpow_mul_pow_toNat : b ^ k * b ^ (-k).toNat = b ^ k.toNat := by
  rw [← zpow_natCast, ← zpow_natCast, ← zpow_add₀ hb.ne']
  congr 1
  omega

theorem pow_toNat_div : b ^ k.toNat / b ^ (-k).toNat = b ^ k := by
  rw [← zpow_mul_pow_toNat hb k]
  exact mul_div_cancel_right₀ _ (pow_pos hb _).ne'

end Powers

section Scaling

variable {den : ℕ} (hden : 0 < den) (n c : ℕ) (k : ℤ)

include hden

/-- A fraction is compared with a multiple of a power of ten in natural numbers. -/
theorem div_le_mul_zpow_iff : (n : ℚ) / den ≤ c * 10 ^ k ↔
    n * 10 ^ (-k).toNat ≤ c * 10 ^ k.toNat * den := by
  have hpow : (0 : ℚ) < 10 ^ (-k).toNat := by positivity
  have hscaled : (c : ℚ) * 10 ^ k * den * 10 ^ (-k).toNat = c * 10 ^ k.toNat * den := by
    rw [← zpow_mul_pow_toNat (by norm_num : (0 : ℚ) < 10) k]
    ring
  rw [div_le_iff₀ (by exact_mod_cast hden), ← mul_le_mul_iff_of_pos_right hpow, hscaled]
  exact_mod_cast Iff.rfl

theorem mul_zpow_le_div_iff : (c : ℚ) * 10 ^ k ≤ (n : ℚ) / den ↔
    c * 10 ^ k.toNat * den ≤ n * 10 ^ (-k).toNat := by
  have hpow : (0 : ℚ) < 10 ^ (-k).toNat := by positivity
  have hscaled : (c : ℚ) * 10 ^ k * den * 10 ^ (-k).toNat = c * 10 ^ k.toNat * den := by
    rw [← zpow_mul_pow_toNat (by norm_num : (0 : ℚ) < 10) k]
    ring
  rw [le_div_iff₀ (by exact_mod_cast hden), ← mul_le_mul_iff_of_pos_right hpow, hscaled]
  exact_mod_cast Iff.rfl

end Scaling

theorem covers_iff {i : RoundingInterval} (hden : 0 < i.den) (c : ℕ) (k : ℤ) :
    i.covers c k = true ↔ i.Contains (c * 10 ^ k) := by
  have hlow := div_le_mul_zpow_iff hden i.low c k
  have hhigh := mul_zpow_le_div_iff hden i.high c k
  have hlow' := not_congr (mul_zpow_le_div_iff hden i.low c k)
  have hhigh' := not_congr (div_le_mul_zpow_iff hden i.high c k)
  rw [not_le, not_le] at hlow' hhigh'
  simp only [covers, Contains, Nat.pow_eq]
  cases i.closed
  · simp [hlow', hhigh']
  · simp [hlow, hhigh]

/-- What a grid yields rounds to the value. -/
theorem covers_of_multipleAt {i : RoundingInterval} {k : ℤ} {c : ℕ}
    (h : i.multipleAt k = some c) : i.covers c k = true := by
  rw [multipleAt] at h
  dsimp only at h
  split at h
  · cases h
  · next hbelow _ => exact Option.some.inj h ▸ hbelow
  · next _ habove => exact Option.some.inj h ▸ habove
  · next hbelow habove =>
    split_ifs at h
    · exact Option.some.inj h ▸ hbelow
    · exact Option.some.inj h ▸ habove
    · exact Option.some.inj h ▸ hbelow
    · exact Option.some.inj h ▸ habove

/-- An interval so wide that, of the numbers with eighteen digits, the one below the value is in it. -/
structure Wide (i : RoundingInterval) : Prop where
  den_pos : 0 < i.den
  low_pos : 0 < i.low
  below : i.value + i.low * 10 ^ 17 < i.value * 10 ^ 17
  above : i.value < i.high

theorem Wide.value_pos {i : RoundingInterval} (h : i.Wide) : 0 < i.value := by
  have := h.below
  omega

theorem wide_ofBits {bits : UInt64} (h : isZero bits = false) : (ofBits bits).Wide := by
  have hpos := magnitude_pos h
  have hlt := magnitude_lt bits
  have hscale : 0 < 2 ^ ((magnitude bits).2 - 2).toNat := by positivity
  have hquarters : 4 * (magnitude bits).1 +
      (4 * (magnitude bits).1 - if isLowerBoundaryCloser bits then 1 else 2) * 10 ^ 17 <
      4 * (magnitude bits).1 * 10 ^ 17 := by
    split <;> omega
  refine ⟨?_, ?_, ?_, ?_⟩
  · simp only [ofBits, Nat.pow_eq]
    positivity
  · simp only [ofBits, Nat.pow_eq]
    refine Nat.mul_pos ?_ hscale
    split <;> omega
  · simp only [ofBits, Nat.pow_eq]
    have hscaled := Nat.mul_lt_mul_of_pos_right hquarters hscale
    linarith
  · simp only [ofBits, Nat.pow_eq]
    exact Nat.mul_lt_mul_of_pos_right (by omega) hscale

/-- The power of ten of the first digit is not above the value. -/
theorem zpow_decimalExponent_le {i : RoundingInterval} (h : i.Wide) :
    (10 : ℚ) ^ i.decimalExponent ≤ (i.value : ℚ) / i.den := by
  have hone : (10 : ℚ) ^ i.decimalExponent = (1 : ℕ) * 10 ^ i.decimalExponent := by simp
  rw [hone, mul_zpow_le_div_iff h.den_pos, decimalExponent, one_mul]
  split
  · next hle =>
    obtain ⟨n, hn⟩ : ∃ n, (Nat.toDigits 10 (i.value / i.den)).length = n + 1 :=
      Nat.exists_eq_add_one.mpr Nat.length_toDigits_pos
    have hpow : 10 ^ n ≤ i.value / i.den := by
      rcases Nat.eq_zero_or_pos n with rfl | hpos
      · exact Nat.div_pos hle h.den_pos
      · have hlonger := Nat.length_toDigits_le_iff (b := 10) (n := i.value / i.den) (by decide) hpos
        omega
    have hexponent : (((n + 1 : ℕ) : ℤ) - 1).toNat = n ∧ (-(((n + 1 : ℕ) : ℤ) - 1)).toNat = 0 := by
      omega
    rw [hn, hexponent.1, hexponent.2, pow_zero, mul_one]
    exact (Nat.le_div_iff_mul_le h.den_pos).mp hpow
  · have hlt := (Nat.length_toDigits_le_iff (b := 10) (n := (i.den - 1) / i.value) (by decide)
      Nat.length_toDigits_pos).mp le_rfl
    rw [Nat.div_lt_iff_lt_mul h.value_pos, mul_comm] at hlt
    simp only [neg_neg, Int.toNat_natCast, Int.toNat_neg_natCast, pow_zero, one_mul]
    omega

/-- On the grid of the eighteenth digit, the multiple below the value rounds to it. -/
theorem covers_floor {i : RoundingInterval} (h : i.Wide) {k : ℤ}
    (hk : k + 17 ≤ i.decimalExponent) :
    i.covers (i.value * Nat.pow 10 (-k).toNat / (i.den * Nat.pow 10 k.toNat)) k = true := by
  have hden : (0 : ℚ) < i.den := by exact_mod_cast h.den_pos
  set c := i.value * Nat.pow 10 (-k).toNat / (i.den * Nat.pow 10 k.toNat) with hc
  have hpos : 0 < i.den * 10 ^ k.toNat := Nat.mul_pos h.den_pos (by positivity)
  have hbelow : (c : ℚ) * 10 ^ k ≤ i.value / i.den := by
    rw [mul_zpow_le_div_iff h.den_pos, mul_assoc, mul_comm (10 ^ k.toNat)]
    exact Nat.div_mul_le_self _ _
  have habove : (i.value : ℚ) / i.den < (c + 1 : ℕ) * 10 ^ k := by
    rw [← not_le, mul_zpow_le_div_iff h.den_pos, not_le, mul_assoc, mul_comm (10 ^ k.toNat)]
    exact Nat.lt_mul_of_div_lt (Nat.lt_succ_self _) hpos
  -- the step of the grid is less than the distance to the lower end
  have hstep : (10 : ℚ) ^ k * 10 ^ 17 ≤ i.value / i.den := by
    calc (10 : ℚ) ^ k * 10 ^ 17 = 10 ^ (k + 17) := by
          rw [zpow_add₀ (by norm_num)]
          norm_num
      _ ≤ 10 ^ i.decimalExponent := zpow_le_zpow_right₀ (by norm_num) hk
      _ ≤ i.value / i.den := zpow_decimalExponent_le h
  have hwide : (i.value : ℚ) / i.den + i.low / i.den * 10 ^ 17 < i.value / i.den * 10 ^ 17 := by
    have := h.below
    rw [div_mul_eq_mul_div, div_mul_eq_mul_div, ← add_div]
    gcongr
    exact_mod_cast this
  have hhigh : (i.value : ℚ) / i.den < i.high / i.den := by
    have := h.above
    gcongr
  rw [covers_iff h.den_pos]
  push_cast at habove
  exact contains_of_lt (by linarith) (by linarith)

/-- The digits of a value round to it. -/
theorem covers_firstMultiple {i : RoundingInterval} (h : i.Wide) (steps : ℕ) {k : ℤ}
    (hk : k - steps + 17 ≤ i.decimalExponent) :
    i.covers (i.firstMultiple steps k).1 (i.firstMultiple steps k).2 = true := by
  induction steps generalizing k with
  | zero => exact covers_floor h (by simpa using hk)
  | succ steps ih =>
    rw [firstMultiple]
    split
    · next hit => exact covers_of_multipleAt hit
    · exact ih (by push_cast at hk; omega)

/-- The step of the places of a double, in quarters. -/
theorem quarters_div (n : ℕ) (q : ℤ) :
    ((n * 2 ^ q.toNat : ℕ) : ℚ) / (2 ^ (-q).toNat : ℕ) = n * 2 ^ q := by
  push_cast
  rw [mul_div_assoc, pow_toNat_div (by norm_num)]

/-- The lower end of the interval of a double, in quarters of its last place. -/
def lowQuarters (bits : UInt64) : ℕ :=
  4 * (magnitude bits).1 - if isLowerBoundaryCloser bits then 1 else 2

def highQuarters (bits : UInt64) : ℕ := 4 * (magnitude bits).1 + 2

theorem low_div_den (bits : UInt64) :
    ((ofBits bits).low : ℚ) / (ofBits bits).den =
      lowQuarters bits * 2 ^ ((magnitude bits).2 - 2) :=
  quarters_div _ _

theorem high_div_den (bits : UInt64) :
    ((ofBits bits).high : ℚ) / (ofBits bits).den =
      highQuarters bits * 2 ^ ((magnitude bits).2 - 2) :=
  quarters_div _ _

/-- In quarters of the smaller double, the intervals of two doubles touch at most at their ends, and
then only one of the fractions is even. -/
theorem highQuarters_le {a b : UInt64} (h : unsigned a < unsigned b) :
    ∃ n : ℕ, (magnitude b).2 = (magnitude a).2 + n ∧
      (highQuarters a < lowQuarters b * 2 ^ n ∨
        highQuarters a = lowQuarters b * 2 ^ n ∧
          (magnitude a).1 % 2 ≠ (magnitude b).1 % 2) := by
  have ha := unsigned_eq a
  have hb := unsigned_eq b
  have hfa := fractionBits_lt a
  have hfb := fractionBits_lt b
  have hcloser : isLowerBoundaryCloser b = true ↔ fractionBits b = 0 ∧ 1 < exponentBits b := by
    simp [isLowerBoundaryCloser]
  rw [magnitude_eq a, magnitude_eq b, highQuarters, lowQuarters, magnitude_eq a, magnitude_eq b]
  simp only [hcloser]
  have hexponent : max (exponentBits a) 1 = max (exponentBits b) 1 ∨
      max (exponentBits a) 1 < exponentBits b := by omega
  rcases hexponent with hsame | hgreater
  · refine ⟨0, by omega, ?_⟩
    rw [pow_zero, mul_one]
    split_ifs <;> omega
  · obtain ⟨n, hn⟩ : ∃ n, exponentBits b = max (exponentBits a) 1 + 1 + n :=
      Nat.exists_eq_add_of_le hgreater
    refine ⟨n + 1, by omega, ?_⟩
    rcases Nat.eq_zero_or_pos n with rfl | hpos
    · split_ifs <;> omega
    · -- two binary places lie between the doubles
      have hpow : 2 ^ 2 ≤ 2 ^ (n + 1) := Nat.pow_le_pow_right (by decide) (by omega)
      have hlow : 2 ^ 53 ≤ 4 * (fractionBits b + if exponentBits b = 0 then 0 else 2 ^ 52) -
          if fractionBits b = 0 ∧ 1 < exponentBits b then 1 else 2 := by
        split_ifs <;> omega
      left
      calc 4 * (fractionBits a + if exponentBits a = 0 then 0 else 2 ^ 52) + 2 < 2 ^ 53 * 2 ^ 2 := by
            split_ifs <;> omega
        _ ≤ _ := Nat.mul_le_mul hlow hpow

theorem highQuarters_scaled {a b : UInt64} {n : ℕ} (hn : (magnitude b).2 = (magnitude a).2 + n) :
    (lowQuarters b : ℚ) * 2 ^ ((magnitude b).2 - 2) =
      (lowQuarters b * 2 ^ n : ℕ) * 2 ^ ((magnitude a).2 - 2) := by
  have hpow : (2 : ℚ) ^ ((magnitude b).2 - 2) = 2 ^ n * 2 ^ ((magnitude a).2 - 2) := by
    rw [← zpow_natCast, ← zpow_add₀ (by norm_num)]
    congr 1
    omega
  rw [hpow]
  push_cast
  ring

/-- A number that rounds to a double does not round to a greater one. -/
theorem not_contains_of_lt {a b : UInt64} (h : unsigned a < unsigned b) {x : ℚ}
    (ha : (ofBits a).Contains x) : ¬ (ofBits b).Contains x := by
  intro hb
  obtain ⟨n, hn, hends⟩ := highQuarters_le h
  have hstep : (0 : ℚ) < 2 ^ ((magnitude a).2 - 2) := by positivity
  have hhigh := ha.le.2
  have hlow := hb.le.1
  rw [high_div_den] at hhigh
  rw [low_div_den, highQuarters_scaled hn] at hlow
  rcases hends with hlt | ⟨heq, hparity⟩
  · have hcast : (highQuarters a : ℚ) < (lowQuarters b * 2 ^ n : ℕ) := by exact_mod_cast hlt
    exact absurd (hlow.trans hhigh) (not_le.mpr (mul_lt_mul_of_pos_right hcast hstep))
  · -- the number is the common end, which belongs to the double with the even fraction only
    have hends : (ofBits b).low / (ofBits b).den = ((ofBits a).high / (ofBits a).den : ℚ) := by
      rw [high_div_den, low_div_den, highQuarters_scaled hn, heq]
    have hcloseda := ha.closed (.inr (hends.ge.trans hb.le.1))
    have hclosedb := hb.closed (.inl (ha.le.2.trans hends.ge))
    simp only [ofBits, beq_iff_eq] at hcloseda hclosedb
    omega

/-- Both zeros are what zero rounds to. -/
theorem contains_zero {bits : UInt64} (h : isZero bits = true) : (ofBits bits).Contains 0 := by
  have hunsigned : unsigned bits = 0 := by simpa [isZero] using h
  have hexponent : exponentBits bits = 0 := by rw [exponentBits, hunsigned, Nat.zero_div]
  have hmagnitude : (magnitude bits).1 = 0 := by
    rw [magnitude, if_pos hexponent, fractionBits, hunsigned, Nat.zero_mod]
  have hlow : (ofBits bits).low = 0 := by simp [ofBits, hmagnitude]
  have hclosed : (ofBits bits).closed = true := by simp [ofBits, hmagnitude]
  rw [Contains, if_pos hclosed, hlow]
  exact ⟨by simp, by positivity⟩

/-- The intervals of doubles of different magnitudes have no number in common. -/
theorem unsigned_eq_of_contains {a b : UInt64} {x : ℚ} (ha : (ofBits a).Contains x)
    (hb : (ofBits b).Contains x) : unsigned a = unsigned b := by
  rcases Nat.lt_trichotomy (unsigned a) (unsigned b) with hlt | heq | hlt
  · exact absurd hb (not_contains_of_lt hlt ha)
  · exact heq
  · exact absurd ha (not_contains_of_lt hlt hb)

end RoundingInterval

/-- The number that digits stand for. -/
def Digits.value (d : Digits) : ℚ :=
  Nat.ofDigitChars 10 d.digits 0 * 10 ^ (d.exponent + 1 - d.digits.length)

/-- The digits of a number without the zeros at its end. -/
def trimmedDigits (n : ℕ) : List Char :=
  ((Nat.toDigits 10 n).reverse.dropWhile (· = '0')).reverse

theorem exists_toDigits_eq (n : ℕ) :
    ∃ zeros, Nat.toDigits 10 n = trimmedDigits n ++ List.replicate zeros '0' := by
  set ds := (Nat.toDigits 10 n).reverse with hds
  have hzeros : (ds.takeWhile (· = '0')).reverse =
      List.replicate (ds.takeWhile (· = '0')).length '0' := by
    rw [List.eq_replicate_iff]
    refine ⟨List.length_reverse, fun c hc => ?_⟩
    simpa using List.all_eq_true.mp List.all_takeWhile c (List.mem_reverse.mp hc)
  refine ⟨(ds.takeWhile (· = '0')).length, ?_⟩
  rw [← hzeros, trimmedDigits, ← hds, ← List.reverse_append, List.takeWhile_append_dropWhile, hds,
    List.reverse_reverse]

/-- Without its last zeros a multiple of a power of ten is the same number. -/
theorem Digits.value_trimmedDigits (n : ℕ) (k : ℤ) :
    Digits.value ⟨trimmedDigits n, k + (Nat.toDigits 10 n).length - 1⟩ = n * 10 ^ k := by
  obtain ⟨zeros, hzeros⟩ := exists_toDigits_eq n
  have hlength : (Nat.toDigits 10 n).length = (trimmedDigits n).length + zeros := by
    rw [hzeros, List.length_append, List.length_replicate]
  have hvalue : n = 10 ^ zeros * Nat.ofDigitChars 10 (trimmedDigits n) 0 := by
    rw [← Nat.ofDigitChars_replicate_zero, ← Nat.ofDigitChars_append, ← hzeros,
      Nat.ofDigitChars_ten_toDigits]
  have hexponent : k + (Nat.toDigits 10 n).length - 1 + 1 - (trimmedDigits n).length =
      zeros + k := by
    omega
  calc (Nat.ofDigitChars 10 (trimmedDigits n) 0 : ℚ) *
        10 ^ (k + (Nat.toDigits 10 n).length - 1 + 1 - (trimmedDigits n).length)
      = (10 ^ zeros * Nat.ofDigitChars 10 (trimmedDigits n) 0 : ℕ) * 10 ^ k := by
        rw [hexponent, zpow_add₀ (by norm_num), zpow_natCast]
        push_cast
        ring
    _ = n * 10 ^ k := by rw [← hvalue]

/-- The digits of a number other than zero do not begin with one. -/
theorem head?_toDigits {n : ℕ} (h : 0 < n) : (Nat.toDigits 10 n).head? ≠ some '0' := by
  induction n using Nat.strongRecOn with
  | _ n ih =>
    rcases Nat.lt_or_ge n 10 with hlt | hge
    · have hdigit : ∀ n < 10, 0 < n → Nat.digitChar n ≠ '0' := by decide
      rw [Nat.toDigits_of_lt_base hlt]
      simpa using hdigit n hlt h
    · rw [Nat.toDigits_of_base_le (by decide) hge, List.head?_append_of_ne_nil _ Nat.toDigits_ne_nil]
      exact ih (n / 10) (by omega) (by omega)

theorem exists_trimmedDigits_eq_cons {n : ℕ} (h : 0 < n) :
    ∃ c cs, trimmedDigits n = c :: cs ∧ c ≠ '0' := by
  obtain ⟨zeros, hzeros⟩ := exists_toDigits_eq n
  have hhead := head?_toDigits h
  rw [hzeros] at hhead
  cases htrimmed : trimmedDigits n with
  | cons c cs =>
    rw [htrimmed, List.cons_append, List.head?_cons] at hhead
    exact ⟨c, cs, rfl, fun hc => hhead (congrArg some hc)⟩
  | nil =>
    rw [htrimmed, List.nil_append] at hzeros hhead
    cases zeros with
    | zero => exact absurd hzeros Nat.toDigits_ne_nil
    | succ zeros => exact absurd rfl hhead

/-- The digits of a double are those of a number that rounds to it. -/
theorem exists_shortest_eq {bits : UInt64} (h : Binary64.isZero bits = false) :
    ∃ (c : ℕ) (k : ℤ), 0 < c ∧ (RoundingInterval.ofBits bits).Contains (c * 10 ^ k) ∧
      shortest bits = ⟨trimmedDigits c, k + (Nat.toDigits 10 c).length - 1⟩ := by
  have hwide := RoundingInterval.wide_ofBits h
  have hcovers := RoundingInterval.covers_firstMultiple hwide 17
    (k := (RoundingInterval.ofBits bits).decimalExponent) (by simp)
  rw [RoundingInterval.covers_iff hwide.den_pos] at hcovers
  refine ⟨_, _, Nat.pos_of_ne_zero fun hzero => ?_, hcovers, rfl⟩
  have hlow : (0 : ℚ) < (RoundingInterval.ofBits bits).low / (RoundingInterval.ofBits bits).den := by
    have hden := hwide.den_pos
    have hpos := hwide.low_pos
    positivity
  have hle := hcovers.le.1
  rw [hzero, Nat.cast_zero, zero_mul] at hle
  exact absurd hlow (not_lt.mpr hle)

theorem contains_shortest {bits : UInt64} (h : Binary64.isZero bits = false) :
    (RoundingInterval.ofBits bits).Contains (shortest bits).value := by
  obtain ⟨c, k, -, hcontains, hshortest⟩ := exists_shortest_eq h
  rw [hshortest, Digits.value_trimmedDigits]
  exact hcontains

/-- The digits of a double begin with one other than zero. -/
theorem exists_digits_shortest_eq_cons {bits : UInt64} (h : Binary64.isZero bits = false) :
    ∃ c cs, (shortest bits).digits = c :: cs ∧ c ≠ '0' := by
  obtain ⟨c, k, hpos, -, hshortest⟩ := exists_shortest_eq h
  rw [hshortest]
  exact exists_trimmedDigits_eq_cons hpos

end Decimal

end GraphClient
