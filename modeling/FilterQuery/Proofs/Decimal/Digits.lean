import FilterQuery.Decimal.Layout
import FilterQuery.Decimal.Reading

/-! Runs of digits: their value, and how they are read behind a sign and before a point. -/

namespace FilterQuery.Decimal

def Digits (cs : List Char) : Prop := cs ≠ [] ∧ ∀ c ∈ cs, c.isDigit

section
variable {cs ds : List Char}

theorem Digits.append (hcs : Digits cs) (hds : ∀ c ∈ ds, c.isDigit) : Digits (cs ++ ds) := by
  refine ⟨fun h => hcs.1 (List.append_eq_nil_iff.1 h).1, ?_⟩
  rw [List.forall_mem_append]
  exact ⟨hcs.2, hds⟩

theorem digits_toDigits (n : Nat) : Digits (Nat.toDigits 10 n) :=
  ⟨Nat.toDigits_ne_nil, fun _ hc => Nat.isDigit_of_mem_toDigits (by decide) (by decide) hc⟩

theorem isDigit_of_mem_zeros {n : Nat} : ∀ c ∈ List.replicate n '0', c.isDigit := by
  intro c hc
  rw [List.eq_of_mem_replicate hc]
  rfl

/-! ## Values -/

theorem natOfDigits_toDigits (n : Nat) : natOfDigits (Nat.toDigits 10 n) = n :=
  Nat.ofDigitChars_ten_toDigits

theorem natOfDigits_zeros (n : Nat) : natOfDigits (List.replicate n '0') = 0 := by
  rw [natOfDigits, Nat.ofDigitChars_replicate_zero, Nat.mul_zero]

theorem natOfDigits_append_zeros (cs : List Char) (n : Nat) :
    natOfDigits (cs ++ List.replicate n '0') = natOfDigits cs * 10 ^ n := by
  rw [natOfDigits, Nat.ofDigitChars_append, Nat.ofDigitChars_replicate_zero, Nat.mul_comm]
  rfl

theorem natOfDigits_zeros_append (cs : List Char) (n : Nat) :
    natOfDigits (List.replicate n '0' ++ cs) = natOfDigits cs := by
  rw [natOfDigits, Nat.ofDigitChars_append, Nat.ofDigitChars_replicate_zero, Nat.mul_zero]
  rfl

/-! ## Reading -/

theorem signOf_signed (negative : Bool) (h : Digits cs) :
    signOf (signed negative (cs ++ ds)) = (negative, cs ++ ds) := by
  cases negative with
  | true => rfl
  | false =>
    obtain ⟨c, cs, rfl⟩ := List.exists_cons_of_ne_nil h.1
    have hc := h.2 c List.mem_cons_self
    rw [List.cons_append, signed, if_neg Bool.false_ne_true]
    -- A digit is neither of the two signs.
    unfold signOf
    split
    · next heq =>
      cases heq
      cases hc
    · next heq =>
      cases heq
      cases hc
    · rfl

theorem digitRun_append_point (hcs : ∀ c ∈ cs, c.isDigit) :
    digitRun (cs ++ '.' :: ds) = (cs, '.' :: ds) := by
  have hpoint : ¬ '.'.isDigit := by decide
  rw [digitRun, List.takeWhile_append_of_pos hcs, List.dropWhile_append_of_pos hcs,
    List.takeWhile_cons_of_neg hpoint, List.dropWhile_cons_of_neg hpoint, List.append_nil]

theorem digitRun_of_digits (hcs : ∀ c ∈ cs, c.isDigit) : digitRun cs = (cs, []) := by
  have hrun : digitRun (cs ++ []) = (cs, []) := by
    rw [digitRun, List.takeWhile_append_of_pos hcs, List.dropWhile_append_of_pos hcs,
      List.takeWhile_nil, List.dropWhile_nil, List.append_nil]
  rwa [List.append_nil] at hrun

theorem readInt?_signed (negative : Bool) (h : Digits cs) :
    readInt? (signed negative cs) =
      some (if negative then -(natOfDigits cs : Int) else natOfDigits cs) := by
  have hsign : signOf (signed negative (cs ++ [])) = (negative, cs ++ []) :=
    signOf_signed negative h
  rw [List.append_nil] at hsign
  have hdigits : (!cs.isEmpty && cs.all Char.isDigit) = true := by
    rw [Bool.and_eq_true, Bool.not_eq_true', List.isEmpty_eq_false_iff, List.all_eq_true]
    exact h
  unfold readInt?
  rw [hsign]
  exact if_pos hdigits

theorem ofText?_signed (negative : Bool) (hcs : Digits cs) (hds : Digits ds) :
    Binary64.ofText? (signed negative (cs ++ '.' :: ds)) =
      Binary64.ofDecimal? negative (natOfDigits (cs ++ ds)) (-ds.length) := by
  unfold Binary64.ofText?
  rw [signOf_signed negative hcs]
  have hempty : ¬ (cs.isEmpty && ds.isEmpty) = true := by
    rw [Bool.and_eq_true, List.isEmpty_iff]
    exact fun h => hcs.1 h.1
  simp only [digitRun_append_point hcs.2, fractionRun, digitRun_of_digits hds.2, readExponent?]
  rw [← Int.zero_sub]
  exact if_neg hempty

end

end FilterQuery.Decimal
