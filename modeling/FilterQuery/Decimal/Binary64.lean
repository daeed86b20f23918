/-! Finite binary64 numbers, and the rounding of an exact quotient to the nearest of them.

Magnitudes are numbered from zero upwards: number `k` is also the bit pattern of that magnitude,
so neighbours differ by one and an even number is an even significand. -/

namespace FilterQuery.Decimal

-- A power is the one of the core library, also where monoids bring their own.
attribute [instance (10001), default_instance 10001] instPowNat

/-- The number that infinity would have. -/
def magnitudeLimit : Nat := 2047 * 2 ^ 52

structure Binary64 where
  negative : Bool
  magnitude : Nat
  finite : magnitude < magnitudeLimit
  deriving DecidableEq

namespace Binary64

def zero (negative : Bool) : Binary64 := ⟨negative, 0, by decide⟩

/-- How many units of 2⁻¹⁰⁷⁴ the magnitude with number `k` has. -/
def units (k : Nat) : Nat :=
  let shift := k / 2 ^ 52 - 1
  (k - shift * 2 ^ 52) * 2 ^ shift

/-- The number of the greatest magnitude of at most `n` units. -/
def numberBelow (n : Nat) : Nat :=
  let shift := n.log2 - 52
  shift * 2 ^ 52 + n / 2 ^ shift

/-- The number of the magnitude nearest to `num / den`; halfway between two, the even one. -/
def roundQuotient (num den : Nat) : Nat :=
  let k := numberBelow (num * 2 ^ 1074 / den)
  match compare (2 * num * 2 ^ 1074) (den * (units k + units (k + 1))) with
  | .lt => k
  | .gt => k + 1
  | .eq => k + k % 2

def ofQuotient? (negative : Bool) (num den : Nat) : Option Binary64 :=
  let k := roundQuotient num den
  if h : k < magnitudeLimit then some ⟨negative, k, h⟩ else none

/-- Decimal exponents past this many places lead out of the range of finite numbers. -/
def exponentLimit : Nat := 400

def ofDecimal? (negative : Bool) (digits : Nat) (exponent : Int) : Option Binary64 :=
  if digits = 0 then some (zero negative)
  else if exponent > exponentLimit then none
  else if exponent + (digits.log2 + 1) < -exponentLimit then some (zero negative)
  else if 0 ≤ exponent then ofQuotient? negative (digits * 10 ^ exponent.toNat) 1
  else ofQuotient? negative digits (10 ^ (-exponent).toNat)

end Binary64

end FilterQuery.Decimal
