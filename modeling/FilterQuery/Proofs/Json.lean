import FilterQuery.Json.Basic

/-! Whole numbers of 32 and 64 bits as JSON, which are read back as they are. -/

namespace FilterQuery.Json

theorem toUInt64?_eq_some_iff {v : Json} {n : UInt64} : v.toUInt64? = some n ↔ v = .ofNat64 n := by
  constructor
  · intro h
    match v with
    | .number (.int value fits) =>
      simp only [Json.toUInt64?, Number.toUInt64?, Option.ite_none_right_eq_some,
        Option.some.injEq] at h
      obtain ⟨hpos, rfl⟩ := h
      have hlt : value.toNat < 2 ^ 64 := by omega
      have hvalue : ((UInt64.ofNat value.toNat).toNat : Int) = value := by
        rw [UInt64.toNat_ofNat_of_lt' hlt]
        exact Int.toNat_of_nonneg hpos
      simp only [Json.ofNat64, Number.ofNat64, hvalue]
    | .number (.float _) | .null | .bool _ | .string _ | .array _ | .object _ => cases h
  · rintro rfl
    simp [Json.ofNat64, Number.ofNat64, Json.toUInt64?, Number.toUInt64?]

theorem toUInt64?_ofNat64 (n : UInt64) : (Json.ofNat64 n).toUInt64? = some n :=
  toUInt64?_eq_some_iff.2 rfl

theorem toUInt64?_ofNat32 (n : UInt32) : (Json.ofNat32 n).toUInt64? = some n.toUInt64 := by
  refine toUInt64?_eq_some_iff.2 ?_
  simp only [Json.ofNat32, Json.ofNat64, Number.ofNat32, Number.ofNat64, UInt32.toNat_toUInt64]

theorem ofNat64_injective {n m : UInt64} (h : Json.ofNat64 n = Json.ofNat64 m) : n = m := by
  have hread := congrArg Json.toUInt64? h
  rwa [toUInt64?_ofNat64, toUInt64?_ofNat64, Option.some.injEq] at hread

theorem ofNat32_injective {n m : UInt32} (h : Json.ofNat32 n = Json.ofNat32 m) : n = m := by
  have hread := congrArg Json.toUInt64? h
  rw [toUInt64?_ofNat32, toUInt64?_ofNat32, Option.some.injEq] at hread
  exact UInt32.toUInt64_inj.1 hread

end FilterQuery.Json
