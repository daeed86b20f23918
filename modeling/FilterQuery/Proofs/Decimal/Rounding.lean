import FilterQuery.Decimal.Binary64

/-! Rounding to binary64 numbers. It depends on the quotient alone, whatever two numbers stand for
it, and it leaves the quotients that are binary64 numbers as they are. -/

namespace FilterQuery.Decimal.Binary64

/-! ## Numbers and their magnitudes -/

theorem units_of_lt {k : Nat} (h : k < 2 ^ 53) : units k = k := by
  have hshift : k / 2 ^ 52 - 1 = 0 := by omega
  rw [units, hshift, Nat.zero_mul, Nat.sub_zero, Nat.pow_zero, Nat.mul_one]

theorem units_normal {shift m : Nat} (hm : 2 ^ 52 ≤ m) (hm' : m < 2 ^ 53) :
    units (shift * 2 ^ 52 + m) = m * 2 ^ shift := by
  have hshift : (shift * 2 ^ 52 + m) / 2 ^ 52 - 1 = shift := by omega
  rw [units, hshift, Nat.add_sub_cancel_left]

theorem subnormal_or_normal (k : Nat) :
    k < 2 ^ 52 ∨ ∃ shift m, 2 ^ 52 ≤ m ∧ m < 2 ^ 53 ∧ k = shift * 2 ^ 52 + m := by
  rcases Nat.lt_or_ge k (2 ^ 52) with h | h
  · exact .inl h
  · refine .inr ⟨k / 2 ^ 52 - 1, k - (k / 2 ^ 52 - 1) * 2 ^ 52, ?_, ?_, ?_⟩ <;> omega

/-- The number above a normal one has one more in the significand, also where that makes it a power
of two and the shift the next one. -/
theorem units_normal_succ {shift m : Nat} (hm : 2 ^ 52 ≤ m) (hm' : m < 2 ^ 53) :
    units (shift * 2 ^ 52 + m + 1) = (m + 1) * 2 ^ shift := by
  rcases Nat.lt_or_ge (m + 1) (2 ^ 53) with h | h
  · rw [Nat.add_assoc, units_normal (by omega) h]
  · have hnext : shift * 2 ^ 52 + m + 1 = (shift + 1) * 2 ^ 52 + 2 ^ 52 := by omega
    have hfull : m + 1 = 2 ^ 53 := by omega
    have hdouble : 2 ^ 52 * 2 ^ (shift + 1) = 2 ^ 53 * 2 ^ shift := by
      rw [← Nat.pow_add, ← Nat.pow_add, Nat.add_comm shift, ← Nat.add_assoc]
    rw [hnext, units_normal (Nat.le_refl _) (by decide), hdouble, hfull]

theorem units_lt_units_succ (k : Nat) : units k < units (k + 1) := by
  rcases subnormal_or_normal k with h | ⟨shift, m, hm, hm', rfl⟩
  · rw [units_of_lt (by omega), units_of_lt (by omega)]
    exact Nat.lt_succ_self k
  · rw [units_normal hm hm', units_normal_succ hm hm']
    exact Nat.mul_lt_mul_of_pos_right (Nat.lt_succ_self m) (Nat.two_pow_pos shift)

theorem units_le_units {j k : Nat} (h : j ≤ k) : units j ≤ units k := by
  induction h with
  | refl => exact Nat.le_refl _
  | step _ ih => exact Nat.le_trans ih (Nat.le_of_lt (units_lt_units_succ _))

theorem numberBelow_spec (n : Nat) :
    units (numberBelow n) ≤ n ∧ n < units (numberBelow n + 1) := by
  rcases Nat.lt_or_ge n (2 ^ 53) with h | h
  · have hlog : n.log2 - 52 = 0 := by
      rcases Nat.eq_zero_or_pos n with rfl | hn
      · rfl
      · have := (Nat.log2_lt (Nat.ne_of_gt hn)).2 h
        omega
    have hbelow : numberBelow n = n := by
      rw [numberBelow, hlog, Nat.zero_mul, Nat.pow_zero, Nat.div_one, Nat.zero_add]
    have hunits := units_of_lt h
    have hnext := units_lt_units_succ n
    rw [hbelow]
    omega
  · have hne : n ≠ 0 := by omega
    have hlog : 53 ≤ n.log2 := (Nat.le_log2 hne).2 h
    obtain ⟨shift, hshift⟩ : ∃ shift, n.log2 = 52 + shift := ⟨n.log2 - 52, by omega⟩
    obtain ⟨hlow, hhigh⟩ := (Nat.log2_eq_iff hne).1 hshift
    have hpos := Nat.two_pow_pos shift
    have hm : 2 ^ 52 ≤ n / 2 ^ shift := by
      rwa [Nat.le_div_iff_mul_le hpos, ← Nat.pow_add]
    have hm' : n / 2 ^ shift < 2 ^ 53 := by
      rwa [Nat.div_lt_iff_lt_mul hpos, ← Nat.pow_add, Nat.add_right_comm 52 1]
    rw [numberBelow, hshift, Nat.add_sub_cancel_left, units_normal hm hm',
      units_normal_succ hm hm', ← Nat.div_lt_iff_lt_mul hpos]
    exact ⟨Nat.div_mul_le_self n _, Nat.lt_succ_self _⟩

theorem numberBelow_units (k : Nat) : numberBelow (units k) = k := by
  obtain ⟨hlow, hhigh⟩ := numberBelow_spec (units k)
  have hle : ¬ numberBelow (units k) < k := fun h =>
    Nat.not_lt.2 (units_le_units (Nat.succ_le_of_lt h)) hhigh
  have hge : ¬ k < numberBelow (units k) := fun h =>
    Nat.not_lt.2 hlow (Nat.lt_of_lt_of_le (units_lt_units_succ k) (units_le_units h))
  omega

theorem units_magnitudeLimit : units magnitudeLimit = 2 ^ (1024 + 1074) := by decide +kernel

theorem magnitudeLimit_le_numberBelow {n : Nat} (h : 2 ^ (1024 + 1074) ≤ n) :
    magnitudeLimit ≤ numberBelow n := by
  rw [← units_magnitudeLimit] at h
  refine Nat.le_of_not_lt fun hlt => Nat.not_lt.2 h ?_
  exact Nat.lt_of_lt_of_le (numberBelow_spec n).2 (units_le_units (Nat.succ_le_of_lt hlt))

/-! ## Quotients -/

/-- Number `k` or the next, by where a quotient lies from the middle between them. -/
def nearest (k : Nat) : Ordering → Nat
  | .lt => k
  | .gt => k + 1
  | .eq => k + k % 2

theorem le_nearest (k : Nat) (o : Ordering) : k ≤ nearest k o := by
  cases o <;> simp only [nearest] <;> omega

section
variable {num den num' den' c : Nat}

theorem roundQuotient_eq_nearest {k : Nat} (hk : numberBelow (num * 2 ^ 1074 / den) = k) :
    roundQuotient num den =
      nearest k (compare (2 * num * 2 ^ 1074) (den * (units k + units (k + 1)))) := hk ▸ rfl

theorem compare_mul_right (a b : Nat) (hc : 0 < c) : compare (a * c) (b * c) = compare a b := by
  rw [Nat.compare_eq_ite_lt, Nat.compare_eq_ite_lt]
  simp only [Nat.mul_lt_mul_right hc]

theorem roundQuotient_mul (hc : 0 < c) :
    roundQuotient (num * c) (den * c) = roundQuotient num den := by
  have hbelow : num * c * 2 ^ 1074 / (den * c) = num * 2 ^ 1074 / den := by
    rw [Nat.mul_right_comm, Nat.mul_div_mul_right _ _ hc]
  rw [roundQuotient_eq_nearest rfl, roundQuotient_eq_nearest rfl, hbelow, ← Nat.mul_assoc,
    Nat.mul_right_comm _ c, Nat.mul_right_comm den, compare_mul_right _ _ hc]

theorem roundQuotient_congr (hden : 0 < den) (hden' : 0 < den') (h : num * den' = num' * den) :
    roundQuotient num den = roundQuotient num' den' := by
  rw [← roundQuotient_mul hden', h, Nat.mul_comm den, roundQuotient_mul hden]

theorem roundQuotient_of_huge (hden : 0 < den) (h : den * 2 ^ 1024 ≤ num) :
    magnitudeLimit ≤ roundQuotient num den := by
  have hbelow : 2 ^ (1024 + 1074) ≤ num * 2 ^ 1074 / den := by
    have hpow (a b : Nat) : 2 ^ (a + b) * den = den * 2 ^ a * 2 ^ b := by
      rw [Nat.mul_assoc, ← Nat.pow_add, Nat.mul_comm]
    rw [Nat.le_div_iff_mul_le hden, hpow 1024 1074]
    exact Nat.mul_le_mul_right _ h
  rw [roundQuotient_eq_nearest rfl]
  exact Nat.le_trans (magnitudeLimit_le_numberBelow hbelow) (le_nearest _ _)

theorem roundQuotient_of_tiny (h : num * 2 ^ (1074 + 1) < den) : roundQuotient num den = 0 := by
  have hdouble (n : Nat) : 2 * num * 2 ^ n = num * 2 ^ (n + 1) := by
    rw [Nat.pow_succ', Nat.mul_left_comm, Nat.mul_assoc]
  have hsmall : num * 2 ^ 1074 ≤ num * 2 ^ (1074 + 1) := by
    rw [← hdouble 1074, Nat.mul_assoc]
    exact Nat.le_mul_of_pos_left _ Nat.two_pos
  have hbelow : numberBelow (num * 2 ^ 1074 / den) = 0 := by
    rw [Nat.div_eq_of_lt (Nat.lt_of_le_of_lt hsmall h)]
    decide
  have hcompare : compare (2 * num * 2 ^ 1074) (den * (units 0 + units 1)) = .lt := by
    rw [Nat.compare_eq_lt, hdouble 1074, units_of_lt (by decide), units_of_lt (by decide),
      Nat.zero_add, Nat.mul_one]
    exact h
  rw [roundQuotient_eq_nearest hbelow, hcompare, nearest]

theorem roundQuotient_units (k : Nat) : roundQuotient (units k) (2 ^ 1074) = k := by
  have hbelow : numberBelow (units k * 2 ^ 1074 / 2 ^ 1074) = k := by
    rw [Nat.mul_div_cancel _ (Nat.two_pow_pos 1074), numberBelow_units]
  have hcompare :
      compare (2 * units k * 2 ^ 1074) (2 ^ 1074 * (units k + units (k + 1))) = .lt := by
    have hnext := units_lt_units_succ k
    have hsum : 2 * units k < units k + units (k + 1) := by omega
    rw [Nat.compare_eq_lt]
    calc 2 * units k * 2 ^ 1074 < (units k + units (k + 1)) * 2 ^ 1074 :=
          Nat.mul_lt_mul_of_pos_right hsum (Nat.two_pow_pos 1074)
      _ = 2 ^ 1074 * (units k + units (k + 1)) := Nat.mul_comm _ _
  rw [roundQuotient_eq_nearest hbelow, hcompare, nearest]

theorem ofQuotient?_congr (negative : Bool) (hden : 0 < den) (hden' : 0 < den')
    (h : num * den' = num' * den) :
    ofQuotient? negative num den = ofQuotient? negative num' den' := by
  unfold ofQuotient?
  rw [roundQuotient_congr hden hden' h]

end

end FilterQuery.Decimal.Binary64
