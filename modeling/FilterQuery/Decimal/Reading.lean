import FilterQuery.Decimal.Binary64

/-! Numbers read from text: whole numbers, and decimals with an optional power of ten. -/

namespace FilterQuery.Decimal

def digitRun (cs : List Char) : List Char × List Char :=
  (cs.takeWhile Char.isDigit, cs.dropWhile Char.isDigit)

def natOfDigits (ds : List Char) : Nat := Nat.ofDigitChars 10 ds 0

def signOf : List Char → Bool × List Char
  | '-' :: cs => (true, cs)
  | '+' :: cs => (false, cs)
  | cs => (false, cs)

def readInt? (cs : List Char) : Option Int :=
  let (negative, ds) := signOf cs
  if !ds.isEmpty && ds.all Char.isDigit then
    some (if negative then -(natOfDigits ds : Int) else natOfDigits ds)
  else none

def readNat? (cs : List Char) : Option Nat :=
  if (signOf cs).1 then none else (readInt? cs).map Int.toNat

def isExponentMark (c : Char) : Bool := c = 'e' || c = 'E'

def readExponent? : List Char → Option Int
  | [] => some 0
  | c :: cs => if isExponentMark c then readInt? cs else none

def fractionRun : List Char → List Char × List Char
  | '.' :: cs => digitRun cs
  | cs => ([], cs)

/-- The finite number nearest to a decimal: an optional sign, digits with a digit on one side of
the point at least, and an optional power of ten. -/
def Binary64.ofText? (cs : List Char) : Option Binary64 := do
  let (negative, cs) := signOf cs
  let (whole, cs) := digitRun cs
  let (fraction, cs) := fractionRun cs
  let exponent ← readExponent? cs
  if whole.isEmpty && fraction.isEmpty then none
  else Binary64.ofDecimal? negative (natOfDigits (whole ++ fraction)) (exponent - fraction.length)

end FilterQuery.Decimal
