import FilterQuery.Proofs.Decimal.Digits
import FilterQuery.Proofs.Decimal.Shortest

/-! Decimals that round to infinity: those that lie no nearer to the greatest finite number than to
the power of two behind it. -/

namespace FilterQuery.Decimal.Binary64

/-- Halfway between the greatest finite number and 2¹⁰²⁴. -/
def infinityThreshold : Nat := 2 ^ 1024 - 2 ^ 970

section
variable {num den k : Nat}

theorem nearest_le_succ (k : Nat) (o : Ordering) : nearest k o ≤ k + 1 := by
  cases o <;> simp only [nearest] <;> omega

theorem succ_le_nearest_iff (hodd : k % 2 = 1) (o : Ordering) : k + 1 ≤ nearest k o ↔ o ≠ .lt := by
  cases o <;> simp only [nearest, ne_eq, reduceCtorEq, not_true, not_false_eq_true, iff_true,
    iff_false] <;> omega

theorem succ_le_roundQuotient_iff (hden : 0 < den) (hodd : k % 2 = 1) :
    k + 1 ≤ roundQuotient num den ↔ den * (units k + units (k + 1)) ≤ 2 * num * 2 ^ 1074 := by
  obtain ⟨hlow, hhigh⟩ := numberBelow_spec (num * 2 ^ 1074 / den)
  rw [Nat.le_div_iff_mul_le hden, Nat.mul_comm] at hlow
  rw [Nat.div_lt_iff_lt_mul hden, Nat.mul_comm _ den] at hhigh
  rw [roundQuotient_eq_nearest rfl, Nat.mul_assoc 2]
  generalize numberBelow (num * 2 ^ 1074 / den) = j at *
  generalize num * 2 ^ 1074 = n at *
  -- The quotient lies between numbers `j` and `j + 1`. The middle decides only where `j` is `k`.
  rcases Nat.lt_trichotomy j k with h | rfl | h
  · have hnearest := nearest_le_succ j (compare (2 * n) (den * (units j + units (j + 1))))
    have hnext : den * units (j + 1) ≤ den * units k := Nat.mul_le_mul_left den (units_le_units h)
    have hstep := Nat.mul_le_mul_left den (Nat.le_of_lt (units_lt_units_succ k))
    rw [Nat.mul_add den (units k)]
    omega
  · rw [succ_le_nearest_iff hodd, ne_eq, Nat.compare_eq_lt, Nat.not_lt]
  · have hnearest := le_nearest j (compare (2 * n) (den * (units j + units (j + 1))))
    have hnumber : den * units (k + 1) ≤ den * units j := Nat.mul_le_mul_left den (units_le_units h)
    have hstep := Nat.mul_le_mul_left den (Nat.le_of_lt (units_lt_units_succ k))
    rw [Nat.mul_add den (units k)]
    omega

theorem magnitudeLimit_le_roundQuotient_iff (hden : 0 < den) :
    magnitudeLimit ≤ roundQuotient num den ↔ den * infinityThreshold ≤ num := by
  have hmiddle : units (magnitudeLimit - 1) + units (magnitudeLimit - 1 + 1) =
      infinityThreshold * (2 * 2 ^ 1074) := by decide +kernel
  have hodd : (magnitudeLimit - 1) % 2 = 1 := by decide
  have hlimit : magnitudeLimit - 1 + 1 = magnitudeLimit := by decide
  have hpos (n : Nat) : 0 < 2 * 2 ^ n := Nat.mul_pos Nat.two_pos (Nat.two_pow_pos n)
  rw [← hlimit, succ_le_roundQuotient_iff hden hodd, hmiddle, ← Nat.mul_assoc, Nat.mul_comm 2 num,
    Nat.mul_assoc num, Nat.mul_le_mul_right_iff (hpos 1074)]

end

theorem ofQuotient?_eq_none_iff {negative : Bool} {num den : Nat} (hden : 0 < den) :
    ofQuotient? negative num den = none ↔ den * infinityThreshold ≤ num := by
  rw [← magnitudeLimit_le_roundQuotient_iff hden, ← Nat.not_lt]
  unfold ofQuotient?
  simp only
  split
  · next h => simp only [h, not_true, reduceCtorEq]
  · next h => simp only [h, not_false_eq_true]

theorem infinityThreshold_pos : 0 < infinityThreshold := by decide +kernel

theorem ofDecimal?_eq_none_iff {negative : Bool} {d places : Nat} :
    ofDecimal? negative d (-places) = none ↔ 10 ^ places * infinityThreshold ≤ d := by
  rcases Nat.eq_zero_or_pos d with rfl | hd
  · have hpos := Nat.mul_pos (ten_pow_pos places) infinityThreshold_pos
    rw [ofDecimal?_zero]
    simp only [reduceCtorEq, false_iff, Nat.not_le]
    exact hpos
  · have hwhole : (-(places : Int)).toNat = 0 := by omega
    have hplaces : (-(-(places : Int))).toNat = places := by omega
    rw [ofDecimal?_eq_ofQuotient? negative hd, hwhole, hplaces, Nat.pow_zero, Nat.mul_one,
      ofQuotient?_eq_none_iff (ten_pow_pos places)]

theorem ofText?_signed_eq_none_iff {negative : Bool} {whole fraction : List Char}
    (hwhole : Digits whole) (hfraction : Digits fraction) :
    ofText? (signed negative (whole ++ '.' :: fraction)) = none ↔
      10 ^ fraction.length * infinityThreshold ≤ natOfDigits (whole ++ fraction) := by
  rw [ofText?_signed negative hwhole hfraction, ofDecimal?_eq_none_iff]

end FilterQuery.Decimal.Binary64
