import FilterQuery.Decimal.Shortest
import FilterQuery.Proofs.Decimal.Rounding

/-! Decimals as binary64 numbers. The bounds on their exponents only skip roundings whose outcome is
certain, so a decimal can be moved along its power of ten, and the shortest one reads back. -/

namespace FilterQuery.Decimal.Binary64

theorem two_pow_le_ten_pow {a b : Nat} (h : a ≤ 3 * b) : 2 ^ a ≤ 10 ^ b :=
  calc 2 ^ a ≤ 2 ^ (3 * b) := Nat.pow_le_pow_right (by decide) h
    _ = 8 ^ b := Nat.pow_mul 2 3 b
    _ ≤ 10 ^ b := Nat.pow_le_pow_left (by decide) b

theorem ten_pow_pos (n : Nat) : 0 < 10 ^ n := Nat.pow_pos (by decide)

section
variable (negative : Bool)

theorem ofQuotient?_of_huge {num den : Nat} (hden : 0 < den) (h : den * 2 ^ 1024 ≤ num) :
    ofQuotient? negative num den = none :=
  dif_neg (Nat.not_lt.2 (roundQuotient_of_huge hden h))

theorem ofQuotient?_of_tiny {num den : Nat} (h : num * 2 ^ (1074 + 1) < den) :
    ofQuotient? negative num den = some (zero negative) := by
  have hzero := roundQuotient_of_tiny h
  unfold ofQuotient?
  simp only [hzero]
  rfl

/-- A decimal is rounded as the quotient that it is, the bounds on its exponent notwithstanding. -/
theorem ofDecimal?_eq_ofQuotient? {d : Nat} (hd : 0 < d) (e : Int) :
    ofDecimal? negative d e = ofQuotient? negative (d * 10 ^ e.toNat) (10 ^ (-e).toNat) := by
  have hlimit : (exponentLimit : Int) = 400 := rfl
  unfold ofDecimal?
  rw [if_neg (Nat.ne_of_gt hd), hlimit]
  -- Beyond the upper bound no number is large enough, beyond the lower one none but zero is small.
  split
  · have hplaces : (-e).toNat = 0 := by omega
    rw [hplaces, Nat.pow_zero]
    symm
    apply ofQuotient?_of_huge negative Nat.one_pos
    calc 1 * 2 ^ 1024 = 2 ^ 1024 := Nat.one_mul _
      _ ≤ 10 ^ e.toNat := two_pow_le_ten_pow (by omega)
      _ ≤ d * 10 ^ e.toNat := Nat.le_mul_of_pos_left _ hd
  split
  · have hwhole : e.toNat = 0 := by omega
    have hdigits : d < 2 ^ (d.log2 + 1) := Nat.lt_log2_self
    rw [hwhole, Nat.pow_zero, Nat.mul_one]
    symm
    apply ofQuotient?_of_tiny negative
    calc d * 2 ^ (1074 + 1) < 2 ^ (d.log2 + 1) * 2 ^ (1074 + 1) :=
          Nat.mul_lt_mul_of_pos_right hdigits (Nat.two_pow_pos (1074 + 1))
      _ = 2 ^ (d.log2 + 1 + (1074 + 1)) := (Nat.pow_add 2 _ _).symm
      _ ≤ 10 ^ (-e).toNat := two_pow_le_ten_pow (by omega)
  split
  · have hplaces : (-e).toNat = 0 := by omega
    rw [hplaces, Nat.pow_zero]
  · have hwhole : e.toNat = 0 := by omega
    rw [hwhole, Nat.pow_zero, Nat.mul_one]

theorem ofDecimal?_zero (e : Int) : ofDecimal? negative 0 e = some (zero negative) := if_pos rfl

theorem ofDecimal?_mul_pow (d j : Nat) (e : Int) :
    ofDecimal? negative (d * 10 ^ j) e = ofDecimal? negative d (e + j) := by
  rcases Nat.eq_zero_or_pos d with rfl | hd
  · rw [Nat.zero_mul, ofDecimal?_zero, ofDecimal?_zero]
  rw [ofDecimal?_eq_ofQuotient? negative (Nat.mul_pos hd (ten_pow_pos j)),
    ofDecimal?_eq_ofQuotient? negative hd]
  apply ofQuotient?_congr negative (ten_pow_pos _) (ten_pow_pos _)
  have hplaces : j + e.toNat + (-(e + j)).toNat = (e + j).toNat + (-e).toNat := by omega
  rw [Nat.mul_assoc, Nat.mul_assoc, ← Nat.pow_add, ← Nat.pow_add, ← Nat.add_assoc, hplaces,
    Nat.mul_assoc, ← Nat.pow_add]

theorem ofDecimal?_sign (d : Nat) (e : Int) :
    ofDecimal? negative d e = (ofDecimal? false d e).map ({ · with negative }) := by
  unfold ofDecimal?
  split
  · rfl
  split
  · rfl
  split
  · rfl
  split
  all_goals
    unfold ofQuotient?
    simp only
    split <;> rfl

end

/-! ## The shortest decimal -/

theorem ofDecimal?_of_readsAs {x : Binary64} {d : Nat} {e : Int} (h : readsAs x.magnitude d e) :
    ofDecimal? x.negative d e = some x := by
  obtain ⟨y, hy, hmagnitude⟩ := (Option.any_eq_true _ _).1 h
  rw [ofDecimal?_sign, hy, Option.map_some]
  obtain ⟨negative, k, hk⟩ := x
  obtain ⟨_, l, hl⟩ := y
  obtain rfl : l = k := of_decide_eq_true hmagnitude
  rfl

theorem readsAs_of_onGrid? {tie : Tie} {k d : Nat} {place : Int}
    (h : onGrid? tie k place = some d) : readsAs k d place := by
  unfold onGrid? at h
  generalize quotient k place = q at h
  obtain ⟨num, den⟩ := q
  simp only at h
  -- Which of the two multiples is the nearer does not matter here.
  split at h
  all_goals
    split at h
    · next hreads =>
      cases h
      exact hreads
    split at h
    · next hreads =>
      cases h
      exact hreads
    · cases h

theorem units_pos {k : Nat} (hk : 0 < k) : 0 < units k := by
  obtain ⟨k, rfl⟩ := Nat.exists_eq_succ_of_ne_zero (Nat.ne_of_gt hk)
  exact Nat.lt_of_le_of_lt (Nat.zero_le _) (units_lt_units_succ k)

theorem ofDecimal?_exact {x : Binary64} (hx : 0 < x.magnitude) :
    ofDecimal? x.negative (units x.magnitude * 5 ^ 1074) (-1074) = some x := by
  have hquotient (n : Nat) : units x.magnitude * 5 ^ n * 10 ^ 0 * 2 ^ n =
      units x.magnitude * 10 ^ n := by
    rw [Nat.pow_zero, Nat.mul_one, Nat.mul_assoc, ← Nat.mul_pow]
  have hfive (n : Nat) : 0 < 5 ^ n := Nat.pow_pos (by decide)
  have hplaces : (-(-1074 : Int)).toNat = 1074 := rfl
  rw [ofDecimal?_eq_ofQuotient? _ (Nat.mul_pos (units_pos hx) (hfive 1074)), hplaces]
  refine (ofQuotient?_congr _ (ten_pow_pos 1074) (Nat.two_pow_pos 1074) (hquotient 1074)).trans ?_
  unfold ofQuotient?
  simp only [roundQuotient_units]
  exact dif_pos x.finite

theorem ofDecimal?_shortest (tie : Tie) (x : Binary64) :
    ofDecimal? x.negative (shortest tie x.magnitude).digits (shortest tie x.magnitude).exponent =
      some x := by
  unfold shortest
  split
  · next hzero =>
    rw [ofDecimal?_zero]
    obtain ⟨negative, k, hk⟩ := x
    obtain rfl : k = 0 := hzero
    rfl
  · next hk =>
    cases hfound : List.findSome? _ (List.range maxDigits) with
    | none => exact ofDecimal?_exact (Nat.pos_of_ne_zero hk)
    | some found =>
      obtain ⟨fewer, -, hfewer⟩ := List.exists_of_findSome?_eq_some hfound
      obtain ⟨d, hd, rfl⟩ := Option.map_eq_some_iff.1 hfewer
      exact ofDecimal?_of_readsAs (readsAs_of_onGrid? hd)

end FilterQuery.Decimal.Binary64
