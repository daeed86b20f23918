import FilterQuery.Decimal.Shortest

/-! Decimal numbers as text: plain, and with a power of ten. -/

namespace FilterQuery.Decimal

/-- Digits and the place of the last one, with no zero at the end of the digits. -/
structure Numeral where
  digits : List Char
  exponent : Int

namespace Numeral

def ofScaled (d : Scaled) : Numeral :=
  let all := Nat.toDigits 10 d.digits
  let kept := (all.reverse.dropWhile (· = '0')).reverse
  if kept.isEmpty then ⟨['0'], 0⟩ else ⟨kept, d.exponent + (all.length - kept.length : Nat)⟩

def magnitude (n : Numeral) : Int := n.exponent + n.digits.length - 1

def plain (n : Numeral) : List Char :=
  if 0 ≤ n.exponent then n.digits ++ List.replicate n.exponent.toNat '0' ++ ['.', '0']
  else
    let places := (-n.exponent).toNat
    let padded := List.replicate (places + 1 - n.digits.length) '0' ++ n.digits
    padded.take (padded.length - places) ++ '.' :: padded.drop (padded.length - places)

def scientific (n : Numeral) : List Char :=
  let significand := match n.digits with
    | d :: e :: r => d :: '.' :: e :: r
    | ds => ds
  let sign := if n.magnitude < 0 then '-' else '+'
  significand ++ 'e' :: sign :: Nat.toDigits 10 n.magnitude.natAbs

end Numeral

def signed (negative : Bool) (text : List Char) : List Char :=
  if negative then '-' :: text else text

end FilterQuery.Decimal
