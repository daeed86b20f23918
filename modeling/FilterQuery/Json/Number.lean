import FilterQuery.Decimal.Layout
import FilterQuery.Decimal.Reading

/-! JSON numbers: whole numbers of at most 64 bits, signed or not, and binary64 numbers. -/

namespace FilterQuery

open Decimal

inductive Number where
  | int (value : Int) (fits : -2 ^ 63 ≤ value ∧ value < 2 ^ 64)
  | float (value : Binary64)
  deriving DecidableEq

namespace Number

def ofInt? (value : Int) : Option Number :=
  if h : -2 ^ 63 ≤ value ∧ value < 2 ^ 64 then some (.int value h) else none

theorem ofInt?_eq_some_iff {v : Int} {n : Number} :
    ofInt? v = some n ↔ ∃ h, n = .int v h := by
  unfold ofInt?
  split
  · next h => exact ⟨fun e => ⟨h, (Option.some.inj e).symm⟩, fun ⟨_, e⟩ => e ▸ rfl⟩
  · next h => exact ⟨nofun, fun ⟨hv, _⟩ => absurd hv h⟩

theorem ofInt?_eq_none_iff {v : Int} : ofInt? v = none ↔ ¬(-2 ^ 63 ≤ v ∧ v < 2 ^ 64) := by
  unfold ofInt?
  rw [dite_eq_right_iff]
  exact ⟨fun h fits => Option.some_ne_none _ (h fits), fun h fits => absurd fits h⟩

def ofNat32 (n : UInt32) : Number :=
  .int n.toNat ⟨by omega, by have := n.toNat_lt; omega⟩

def ofNat64 (n : UInt64) : Number :=
  .int n.toNat ⟨by omega, by have := n.toNat_lt; omega⟩

def toInt? : Number → Option Int
  | .int v _ => some v
  | .float _ => none

def toUInt64? : Number → Option UInt64
  | .int v _ => if 0 ≤ v then some (.ofNat v.toNat) else none
  | .float _ => none

def intText (v : Int) : List Char :=
  signed (v < 0) (Nat.toDigits 10 v.natAbs)

/-- Plain from 10⁻⁵ up to 10¹⁶, and zero; otherwise with a power of ten. -/
def floatText (x : Binary64) : List Char :=
  let n := Numeral.ofScaled (Binary64.shortest .toEven x.magnitude)
  signed x.negative (if -5 ≤ n.magnitude ∧ n.magnitude < 16 then n.plain else n.scientific)

def chars : Number → List Char
  | .int v _ => intText v
  | .float x => floatText x

def text (n : Number) : String := .ofList n.chars

end Number

end FilterQuery
