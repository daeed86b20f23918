import FilterQuery.Decimal.Binary64

/-! The shortest decimal that reads back as a given binary64 number, and of those the nearest. -/

namespace FilterQuery.Decimal

structure Scaled where
  digits : Nat
  exponent : Int
  deriving DecidableEq

inductive Tie where
  | toEven
  | up

namespace Binary64

def leadingPlace (k : Nat) : Int :=
  (Nat.toDigits 10 (units k * 10 ^ 324 / 2 ^ 1074)).length - 325

def quotient (k : Nat) (place : Int) : Nat × Nat :=
  (units k * 10 ^ (-place).toNat, 2 ^ 1074 * 10 ^ place.toNat)

def readsAs (k digits : Nat) (place : Int) : Bool :=
  (ofDecimal? false digits place).any (·.magnitude = k)

/-- Of the two multiples of `10 ^ place` about the magnitude of `k`, the nearer that reads back. -/
def onGrid? (tie : Tie) (k : Nat) (place : Int) : Option Nat :=
  let (num, den) := quotient k place
  let below := num / den
  let nearer := match compare (2 * num) ((2 * below + 1) * den), tie with
    | .lt, _ => below
    | .gt, _ | .eq, .up => below + 1
    | .eq, .toEven => below + below % 2
  let farther := 2 * below + 1 - nearer
  if readsAs k nearer place then some nearer
  else if readsAs k farther place then some farther
  else none

def maxDigits : Nat := 17

/-- The fewest digits that read back; every digit of the exact value should none do. -/
def shortest (tie : Tie) (k : Nat) : Scaled :=
  if k = 0 then ⟨0, 0⟩
  else
    ((List.range maxDigits).findSome? fun (fewer : Nat) =>
      let place := leadingPlace k - fewer
      (onGrid? tie k place).map (⟨·, place⟩)).getD ⟨units k * 5 ^ 1074, -1074⟩

end Binary64

end FilterQuery.Decimal
