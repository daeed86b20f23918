import FilterQuery.Json.Decode

/-! Pages of a result, by their number from zero and their size. -/

namespace FilterQuery

structure Pagination where
  page : UInt32
  size : UInt32
  deriving DecidableEq, Repr

namespace Pagination

def defaultSize : UInt32 := 10

def default : Pagination := ⟨0, defaultSize⟩

/-- `v` moved into the range from `low` to 2³² - 1. -/
def clamp (low v : Int) : UInt32 := .ofNat (min (max low v).toNat (2 ^ 32 - 1))

theorem toNat_clamp {low : Int} (h : 0 ≤ low) (v : Int) :
    ((clamp low v).toNat : Int) = min (max low v) (2 ^ 32 - 1) := by
  rw [clamp, UInt32.toNat_ofNat_of_lt' (by rw [UInt32.size]; omega)]
  omega

def ofInts (page size : Int) : Pagination := ⟨clamp 0 page, clamp 1 size⟩

theorem one_le_size_ofInts (page size : Int) : 1 ≤ (ofInts page size).size.toNat := by
  have h := @toNat_clamp 1 (by decide) size
  simp only [ofInts]
  omega

def offset (p : Pagination) : UInt64 := p.page.toUInt64 * p.size.toUInt64

def limit (p : Pagination) : UInt32 := p.size

theorem toNat_offset (p : Pagination) : p.offset.toNat = p.page.toNat * p.size.toNat := by
  have hp := p.page.toNat_lt
  have hs := p.size.toNat_lt
  rw [offset, UInt64.toNat_mul, UInt32.toNat_toUInt64, UInt32.toNat_toUInt64]
  apply Nat.mod_eq_of_lt
  calc p.page.toNat * p.size.toNat ≤ (2 ^ 32 - 1) * (2 ^ 32 - 1) :=
        Nat.mul_le_mul (by omega) (by omega)
    _ < 2 ^ 64 := by decide

def toJson (p : Pagination) : Json :=
  .object [("page", .ofNat32 p.page), ("size", .ofNat32 p.size)]

def ofJson? (v : Json) : Option Pagination := do
  let fields ← v.record? ["page", "size"]
  let page ← Json.defaulted 0 Json.toInt64? fields "page"
  let size ← Json.defaulted (defaultSize.toNat : Int) Json.toInt64? fields "size"
  some (ofInts page size)

end Pagination

end FilterQuery
