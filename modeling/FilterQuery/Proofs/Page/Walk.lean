import Mathlib
import FilterQuery.Page.Basic

/-! Walking through the pages of a result. The pages of one size stand one behind the other, and as
many of them as are counted have every result once. -/

namespace FilterQuery

namespace Pagination

def window (p : Pagination) : Set ℕ := Set.Ico p.offset.toNat (p.offset.toNat + p.limit.toNat)

theorem offset_add_limit (p : Pagination) :
    p.offset.toNat + p.limit.toNat = (p.page.toNat + 1) * p.size.toNat := by
  rw [toNat_offset, Nat.succ_mul]
  rfl

theorem toNat_offset_add_limit (p : Pagination) :
    (p.offset + p.limit.toUInt64).toNat = p.offset.toNat + p.limit.toNat := by
  have hsize : p.size.toNat ≤ 2 ^ 32 - 1 := Nat.le_sub_one_of_lt p.size.toNat_lt
  rw [UInt64.toNat_add, UInt32.toNat_toUInt64]
  apply Nat.mod_eq_of_lt
  calc p.offset.toNat + p.limit.toNat
    _ = (p.page.toNat + 1) * p.size.toNat := p.offset_add_limit
    _ ≤ 2 ^ 32 * (2 ^ 32 - 1) := Nat.mul_le_mul p.page.toNat_lt hsize
    _ < 2 ^ 64 := by decide

theorem offset_pos_iff {p : Pagination} (h : 1 ≤ p.size.toNat) :
    0 < p.offset.toNat ↔ 0 < p.page.toNat := by
  rw [toNat_offset, Nat.mul_pos_iff_of_pos_right h]

section OneSize

variable {size : Int} {k : ℕ}

theorem page_ofInts (h : k < 2 ^ 32) : (ofInts k size).page.toNat = k := by
  have hclamp := @toNat_clamp 0 (by decide) k
  simp only [ofInts]
  omega

theorem offset_ofInts (h : k < 2 ^ 32) :
    (ofInts k size).offset.toNat = k * (ofInts 0 size).size.toNat := by
  rw [toNat_offset, page_ofInts h]
  rfl

theorem window_ofInts (h : k < 2 ^ 32) :
    (ofInts k size).window = Set.Ico (k * (ofInts 0 size).size.toNat)
      ((k + 1) * (ofInts 0 size).size.toNat) := by
  rw [window, offset_add_limit, offset_ofInts h, page_ofInts h]
  rfl

end OneSize

/-- The first `n` pages of one size are a walk through `total` results that has every result once,
and no page without a result. -/
structure Walk (size : Int) (total n : ℕ) : Prop where
  numbered : ∀ k < n, (ofInts k size).page.toNat = k
  starts : (ofInts 0 size).offset.toNat = 0
  consecutive : ∀ k, k + 1 < n → (ofInts (k + 1 : ℕ) size).offset.toNat =
    (ofInts k size).offset.toNat + (ofInts k size).limit.toNat
  disjoint : ∀ j < n, ∀ k < n, j ≠ k → Disjoint (ofInts j size).window (ofInts k size).window
  filled : ∀ k < n, ∃ rank ∈ (ofInts k size).window, rank < total
  covers : ∀ rank < total, ∃ k < n, rank ∈ (ofInts k size).window

theorem walk_of_lt_iff {size : Int} {total n : ℕ} (hn : n ≤ 2 ^ 32)
    (h : ∀ k, k < n ↔ k * (ofInts 0 size).size.toNat < total) : Walk size total n where
  numbered k hk := page_ofInts (Nat.lt_of_lt_of_le hk hn)
  starts := by rw [← Nat.cast_zero, offset_ofInts (by decide), Nat.zero_mul]
  consecutive k hk := by
    have hlast : k < 2 ^ 32 := by omega
    rw [offset_add_limit, page_ofInts hlast, offset_ofInts (Nat.lt_of_lt_of_le hk hn)]
    rfl
  disjoint j hj k hk hne := by
    rw [window_ofInts (Nat.lt_of_lt_of_le hj hn), window_ofInts (Nat.lt_of_lt_of_le hk hn)]
    have hmono : Monotone (· * (ofInts 0 size).size.toNat) :=
      fun _ _ hle => Nat.mul_le_mul_right _ hle
    exact hmono.pairwise_disjoint_on_Ico_succ hne
  filled k hk := by
    have hpos := one_le_size_ofInts 0 size
    refine ⟨k * (ofInts 0 size).size.toNat, ?_, (h k).1 hk⟩
    rw [window_ofInts (Nat.lt_of_lt_of_le hk hn)]
    exact ⟨Nat.le_refl _, Nat.mul_lt_mul_of_pos_right k.lt_succ_self hpos⟩
  covers rank hrank := by
    have hpos := one_le_size_ofInts 0 size
    have hbegin := Nat.div_mul_le_self rank (ofInts 0 size).size.toNat
    have hk := (h _).2 (Nat.lt_of_le_of_lt hbegin hrank)
    refine ⟨_, hk, ?_⟩
    rw [window_ofInts (Nat.lt_of_lt_of_le hk hn)]
    exact ⟨hbegin, Nat.lt_mul_of_div_lt (Nat.lt_succ_self _) hpos⟩

end Pagination

namespace Page

variable {α : Type} {p : Page α}

theorem toNat_max_size (h : 1 ≤ p.pagination.size.toNat) :
    (max p.pagination.size 1).toNat = p.pagination.size.toNat := by
  rw [UInt32.max_def]
  split
  · next hle => exact Nat.le_antisymm h (UInt32.le_iff_toNat_le.1 hle)
  · rfl

/-- The quotient is only rounded up where it is below the count, so that nothing overflows. -/
theorem toNat_totalPages (h : 1 ≤ p.pagination.size.toNat) :
    p.totalPages.toNat = p.totalCount.toNat / p.pagination.size.toNat +
      if p.totalCount.toNat % p.pagination.size.toNat = 0 then 0 else 1 := by
  have htotal := p.totalCount.toNat_lt
  have hrest : p.totalCount % (max p.pagination.size 1).toUInt64 = 0 ↔
      p.totalCount.toNat % p.pagination.size.toNat = 0 := by
    rw [← UInt64.toNat_inj, UInt64.toNat_mod, UInt32.toNat_toUInt64, toNat_max_size h]
    rfl
  simp only [totalPages, hrest, UInt64.toNat_add, UInt64.toNat_div, UInt32.toNat_toUInt64,
    toNat_max_size h]
  split
  · exact Nat.mod_eq_of_lt (Nat.lt_of_le_of_lt (Nat.div_le_self ..) htotal)
  · next hne =>
    refine Nat.mod_eq_of_lt (Nat.lt_of_le_of_lt ?_ htotal)
    calc p.totalCount.toNat / p.pagination.size.toNat + 1
      _ ≤ p.pagination.size.toNat * (p.totalCount.toNat / p.pagination.size.toNat) +
          p.totalCount.toNat % p.pagination.size.toNat :=
        Nat.add_le_add (Nat.le_mul_of_pos_left _ h) (Nat.pos_of_ne_zero hne)
      _ = p.totalCount.toNat := Nat.div_add_mod ..

theorem totalPages_le_iff (h : 1 ≤ p.pagination.size.toNat) {n : ℕ} :
    p.totalPages.toNat ≤ n ↔ p.totalCount.toNat ≤ n * p.pagination.size.toNat := by
  rw [toNat_totalPages h]
  split
  · next hrest =>
    rw [Nat.add_zero, ← Nat.mul_le_mul_right_iff h,
      Nat.div_mul_cancel (Nat.dvd_of_mod_eq_zero hrest)]
  · next hrest =>
    have hne : p.totalCount.toNat ≠ n * p.pagination.size.toNat := by
      intro htotal
      rw [htotal, Nat.mul_mod_left] at hrest
      exact hrest rfl
    rw [Nat.succ_le_iff, Nat.div_lt_iff_lt_mul h, Nat.lt_iff_le_and_ne]
    exact and_iff_left hne

theorem lt_totalPages_iff (h : 1 ≤ p.pagination.size.toNat) {k : ℕ} :
    k < p.totalPages.toNat ↔ k * p.pagination.size.toNat < p.totalCount.toNat := by
  rw [← Nat.not_le, ← Nat.not_le, totalPages_le_iff h]

theorem isLeast_totalPages (h : 1 ≤ p.pagination.size.toNat) :
    IsLeast {n : ℕ | p.totalCount.toNat ≤ n * p.pagination.size.toNat} p.totalPages.toNat :=
  ⟨(totalPages_le_iff h).1 (Nat.le_refl _), fun _ hn => (totalPages_le_iff h).2 hn⟩

theorem hasNext_iff (h : 1 ≤ p.pagination.size.toNat) :
    p.hasNext ↔
      p.pagination.offset.toNat + p.pagination.limit.toNat < p.totalCount.toNat := by
  have hpage := p.pagination.page.toNat_lt
  have hnext : (p.pagination.page.toUInt64 + 1).toNat = p.pagination.page.toNat + 1 := by
    rw [UInt64.toNat_add, UInt32.toNat_toUInt64]
    exact Nat.mod_eq_of_lt (show p.pagination.page.toNat + 1 < 2 ^ 64 by omega)
  rw [hasNext, decide_eq_true_iff, UInt64.lt_iff_toNat_lt, hnext, lt_totalPages_iff h,
    Pagination.offset_add_limit]

theorem hasPrevious_iff (h : 1 ≤ p.pagination.size.toNat) :
    p.hasPrevious ↔ 0 < p.pagination.offset.toNat := by
  rw [hasPrevious, decide_eq_true_iff, UInt32.lt_iff_toNat_lt, Pagination.offset_pos_iff h]
  rfl

end Page

namespace Pagination

/-- The counts and places of pages are exact up to the last page that there can be, and the pages
that are counted have every result once. A page number has 32 bits: where more pages are counted
than there are numbers for, the results behind the last one cannot be asked for. -/
theorem walk_has_every_result_once {number size : Int} {p : Pagination}
    (hp : p = ofInts number size) :
    (1 ≤ p.size.toNat ∧ p.size.toNat ≤ 2 ^ 32 - 1) ∧
    (0 ≤ p.page.toNat ∧ p.page.toNat ≤ 2 ^ 32 - 1) ∧
    p.offset.toNat = p.page.toNat * p.size.toNat ∧
    (p.offset + p.limit.toUInt64).toNat = p.offset.toNat + p.limit.toNat ∧
    ∀ {α : Type} (page : Page α), page.pagination = p →
      IsLeast {n : ℕ | page.totalCount.toNat ≤ n * p.size.toNat} page.totalPages.toNat ∧
      (page.hasNext ↔ p.offset.toNat + p.limit.toNat < page.totalCount.toNat) ∧
      (page.hasPrevious ↔ 0 < p.offset.toNat) ∧
      (page.totalPages.toNat ≤ 2 ^ 32 →
        Walk size page.totalCount.toNat page.totalPages.toNat) := by
  have hpos : 1 ≤ p.size.toNat := hp ▸ one_le_size_ofInts number size
  refine ⟨⟨hpos, Nat.le_sub_one_of_lt p.size.toNat_lt⟩,
    ⟨Nat.zero_le _, Nat.le_sub_one_of_lt p.page.toNat_lt⟩, p.toNat_offset,
    p.toNat_offset_add_limit, ?_⟩
  intro α page hpage
  rw [← hpage] at hp hpos ⊢
  refine ⟨Page.isLeast_totalPages hpos, Page.hasNext_iff hpos, Page.hasPrevious_iff hpos, ?_⟩
  intro hn
  refine walk_of_lt_iff hn fun k => ?_
  rw [Page.lt_totalPages_iff hpos, hp]
  rfl

/-- At the limits: as many of the largest pages as there are numbers for. -/
theorem walk_has_every_result_once_at_the_limits :
    let page : Page Unit :=
      { items := [], pagination := ofInts (2 ^ 63 - 1) (2 ^ 63 - 1), totalCount := 2 ^ 64 - 2 ^ 32 }
    page.totalPages.toNat = 2 ^ 32 ∧ page.hasNext = false ∧
      Walk (2 ^ 63 - 1) (2 ^ 64 - 2 ^ 32) (2 ^ 32) := by
  intro page
  have hcount : page.totalPages.toNat = 2 ^ 32 := by decide
  have htotal : page.totalCount.toNat = 2 ^ 64 - 2 ^ 32 := by decide
  have hp : page.pagination = ofInts (2 ^ 63 - 1) (2 ^ 63 - 1) := rfl
  obtain ⟨-, -, -, -, hpages⟩ := walk_has_every_result_once hp
  have hwalk := (hpages page rfl).2.2.2 (Nat.le_of_eq hcount)
  rw [hcount, htotal] at hwalk
  exact ⟨hcount, by decide, hwalk⟩

end Pagination

end FilterQuery
