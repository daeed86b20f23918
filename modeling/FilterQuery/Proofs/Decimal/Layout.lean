import FilterQuery.Proofs.Decimal.Digits
import FilterQuery.Proofs.Decimal.Shortest

/-! Plain decimals read back: neither the zeros that are left out of a numeral nor those that stand
about its point change the number. -/

namespace FilterQuery.Decimal

open Binary64

namespace Numeral

theorem append_stripped_zeros {cs kept : List Char}
    (h : (cs.reverse.dropWhile (· = '0')).reverse = kept) :
    kept ++ List.replicate (cs.length - kept.length) '0' = cs := by
  let stripped := cs.reverse.takeWhile (· = '0')
  have hzeros : stripped.reverse = List.replicate stripped.length '0' := by
    refine List.eq_replicate_iff.2 ⟨List.length_reverse, fun c hc => ?_⟩
    have hzero := List.all_eq_true.1 List.all_takeWhile c (List.mem_reverse.1 hc)
    exact of_decide_eq_true hzero
  have hsplit : cs = kept ++ stripped.reverse := by
    rw [← h, ← List.reverse_append, List.takeWhile_append_dropWhile, List.reverse_reverse]
  have hlength : cs.length - kept.length = stripped.length := by
    rw [hsplit, List.length_append, List.length_reverse, Nat.add_sub_cancel_left]
  rw [hlength, ← hzeros, ← hsplit]

section
variable (negative : Bool)

theorem ofScaled_spec (d : Scaled) :
    Digits (ofScaled d).digits ∧
      ofDecimal? negative (natOfDigits (ofScaled d).digits) (ofScaled d).exponent =
        ofDecimal? negative d.digits d.exponent := by
  generalize hkept : ((Nat.toDigits 10 d.digits).reverse.dropWhile (· = '0')).reverse = kept
  have hsplit := append_stripped_zeros hkept
  have hvalue := natOfDigits_toDigits d.digits
  have hdigits := digits_toDigits d.digits
  unfold ofScaled
  simp only [hkept]
  generalize Nat.toDigits 10 d.digits = all at *
  split
  · next hempty =>
    -- Nothing but zeros has been stripped, so the number is zero.
    obtain rfl := List.isEmpty_iff.1 hempty
    have hzero : d.digits = 0 := by
      rw [← hvalue, ← hsplit, List.nil_append, natOfDigits_zeros]
    rw [hzero, ofDecimal?_zero]
    exact ⟨digits_toDigits 0, ofDecimal?_zero negative 0⟩
  · next hempty =>
    refine ⟨⟨mt List.isEmpty_iff.2 hempty, fun c hc => hdigits.2 c ?_⟩, ?_⟩
    · rw [← hsplit]
      exact List.mem_append_left _ hc
    · rw [← hvalue, ← ofDecimal?_mul_pow, ← natOfDigits_append_zeros, hsplit]

theorem plain_spec {n : Numeral} (h : Digits n.digits) :
    ∃ whole fraction, n.plain = whole ++ '.' :: fraction ∧ Digits whole ∧ Digits fraction ∧
      ofDecimal? negative (natOfDigits (whole ++ fraction)) (-fraction.length) =
        ofDecimal? negative (natOfDigits n.digits) n.exponent := by
  unfold plain
  split
  · next hexponent =>
    refine ⟨n.digits ++ List.replicate n.exponent.toNat '0', ['0'], ?_, ?_, ?_, ?_⟩
    · rfl
    · exact h.append isDigit_of_mem_zeros
    · exact digits_toDigits 0
    · have hzeros : n.digits ++ List.replicate n.exponent.toNat '0' ++ ['0'] =
          n.digits ++ List.replicate (n.exponent.toNat + 1) '0' := by
        rw [List.append_assoc, ← List.replicate_succ']
      have hplaces : -(1 : Int) + (n.exponent.toNat + 1 : Nat) = n.exponent := by omega
      rw [hzeros, natOfDigits_append_zeros, ofDecimal?_mul_pow]
      exact congrArg _ hplaces
  · next hexponent =>
    simp only
    generalize hplaces : (-n.exponent).toNat = places
    generalize hpadded : List.replicate (places + 1 - n.digits.length) '0' ++ n.digits = padded
    -- The zeros before the digits leave one digit before the point at least.
    have hlength : places < padded.length := by
      rw [← hpadded, List.length_append, List.length_replicate]
      omega
    have hdigits : ∀ c ∈ padded, c.isDigit := by
      rw [← hpadded, List.forall_mem_append]
      exact ⟨isDigit_of_mem_zeros, h.2⟩
    have hdrop : (padded.drop (padded.length - places)).length = places := by
      rw [List.length_drop]
      omega
    have htake : (padded.take (padded.length - places)).length ≠ 0 := by
      rw [List.length_take]
      omega
    refine ⟨_, _, rfl, ⟨?_, fun c hc => hdigits c (List.mem_of_mem_take hc)⟩,
      ⟨?_, fun c hc => hdigits c (List.mem_of_mem_drop hc)⟩, ?_⟩
    · exact mt List.length_eq_zero_iff.2 htake
    · refine mt List.length_eq_zero_iff.2 ?_
      omega
    · have hexponent' : -(places : Int) = n.exponent := by omega
      rw [List.take_append_drop, hdrop, hexponent', ← hpadded, natOfDigits_zeros_append]

end

end Numeral

theorem ofText?_shortest (tie : Tie) (x : Binary64) :
    ∃ whole fraction, (Numeral.ofScaled (shortest tie x.magnitude)).plain =
        whole ++ '.' :: fraction ∧ Digits whole ∧ Digits fraction ∧
      ofText? (signed x.negative (whole ++ '.' :: fraction)) = some x := by
  obtain ⟨hdigits, hscaled⟩ := Numeral.ofScaled_spec x.negative (shortest tie x.magnitude)
  obtain ⟨whole, fraction, hplain, hwhole, hfraction, hvalue⟩ :=
    Numeral.plain_spec x.negative hdigits
  refine ⟨whole, fraction, hplain, hwhole, hfraction, ?_⟩
  rw [ofText?_signed x.negative hwhole hfraction, hvalue, hscaled]
  exact ofDecimal?_shortest tie x

end FilterQuery.Decimal
