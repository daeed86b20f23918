import FilterQuery.Criteria.Basic
import FilterQuery.Page.Basic
import FilterQuery.Proofs.Json.Decode

/-! Criteria and pages as JSON, which are decoded as they were encoded. Only a page size of zero is
not, since decoding moves the numbers of a pagination into their ranges. -/

namespace FilterQuery

open Json (Undoes)

namespace Pagination

variable {p : Pagination} {n m : Number} {page size : Int}

theorem ofJson?_of_toInt? (hn : n.toInt? = some page) (hm : m.toInt? = some size)
    (hpage : page < 2 ^ 63) (hsize : size < 2 ^ 63) :
    ofJson? (.object [("page", .number n), ("size", .number m)]) = some (ofInts page size) := by
  show (do
    let page ← Json.toInt64? (.number n)
    let size ← Json.toInt64? (.number m)
    some (ofInts page size)) = _
  rw [Json.toInt64?_of_toInt? hn hpage, Json.toInt64?_of_toInt? hm hsize]
  rfl

structure InRange (p : Pagination) : Prop where
  one_le_size : 1 ≤ p.size.toNat
  size_le : p.size.toNat ≤ 2 ^ 32 - 1
  zero_le_page : 0 ≤ p.page.toNat
  page_le : p.page.toNat ≤ 2 ^ 32 - 1

theorem inRange_iff : p.InRange ↔ 1 ≤ p.size.toNat :=
  ⟨InRange.one_le_size, fun h => ⟨h, Nat.le_sub_one_of_lt p.size.toNat_lt, Nat.zero_le _,
    Nat.le_sub_one_of_lt p.page.toNat_lt⟩⟩

/-- What is left of a pagination when its numbers are moved into their ranges again. -/
def normal (p : Pagination) : Pagination := ofInts p.page.toNat p.size.toNat

theorem ofJson?_toJson (p : Pagination) : ofJson? p.toJson = some p.normal := by
  have hpage := p.page.toNat_lt
  have hsize := p.size.toNat_lt
  exact ofJson?_of_toInt? rfl rfl (by omega) (by omega)

theorem one_le_size_default : 1 ≤ default.size.toNat := by decide

theorem one_le_size_normal (p : Pagination) : 1 ≤ p.normal.size.toNat := one_le_size_ofInts _ _

theorem normal_eq_iff : p.normal = p ↔ 1 ≤ p.size.toNat := by
  constructor
  · intro h
    rw [← h]
    exact p.one_le_size_normal
  · intro h
    obtain ⟨page, size⟩ := p
    have hpage := page.toNat_lt
    have hsize := size.toNat_lt
    have hleast : 1 ≤ size.toNat := h
    have hpage' := @toNat_clamp 0 (by decide) page.toNat
    have hsize' := @toNat_clamp 1 (by decide) size.toNat
    simp only [normal, ofInts, mk.injEq, ← UInt32.toNat_inj]
    constructor <;> omega

theorem exists_ofInts_of_ofJson? {v : Json} (h : ofJson? v = some p) :
    ∃ page size, p = ofInts page size := by
  obtain ⟨fields, -, h⟩ := Option.bind_eq_some_iff.1 h
  obtain ⟨page, -, h⟩ := Option.bind_eq_some_iff.1 h
  obtain ⟨size, -, h⟩ := Option.bind_eq_some_iff.1 h
  exact ⟨page, size, (Option.some.inj h).symm⟩

theorem one_le_size_of_ofJson? {v : Json} (h : ofJson? v = some p) : 1 ≤ p.size.toNat := by
  obtain ⟨page, size, rfl⟩ := exists_ofInts_of_ofJson? h
  exact one_le_size_ofInts page size

end Pagination

/-! ## Criteria -/

theorem ValueType.undoes : Undoes ofJson? fun t => .string t.name := by
  intro t
  cases t <;> decide

theorem SortKey.undoes : Undoes ofJson? toJson := by
  intro s
  unfold SortKey.ofJson?
  refine Option.bind_eq_some_iff.2 ⟨_, rfl, ?_⟩
  refine Option.bind_eq_some_iff.2 ⟨_, Json.undoes_string.required rfl, ?_⟩
  refine Option.bind_eq_some_iff.2 ⟨_, ValueType.undoes.defaulted rfl, ?_⟩
  refine Option.bind_eq_some_iff.2 ⟨_, Json.undoes_bool.defaulted rfl, ?_⟩
  rfl

namespace Criteria

variable {c : Criteria}

theorem ofJson?_toJson (c : Criteria) :
    ofJson? c.toJson = some { c with pagination := c.pagination.normal } := by
  have hpagination := c.pagination.ofJson?_toJson
  unfold ofJson?
  refine Option.bind_eq_some_iff.2 ⟨_, rfl, ?_⟩
  refine Option.bind_eq_some_iff.2 ⟨_, Json.undoes_nullable_string.defaulted rfl, ?_⟩
  refine Option.bind_eq_some_iff.2 ⟨_, Json.undoes_nullable_string.defaulted rfl, ?_⟩
  refine Option.bind_eq_some_iff.2 ⟨_, SortKey.undoes.listOf.defaulted rfl, ?_⟩
  refine Option.bind_eq_some_iff.2 ⟨_, (Json.defaulted_of_get? rfl).trans hpagination, ?_⟩
  refine Option.bind_eq_some_iff.2 ⟨_, Json.undoes_string.listOf.defaulted rfl, ?_⟩
  rfl

theorem one_le_size_of_ofJson? {v : Json} (h : ofJson? v = some c) :
    1 ≤ c.pagination.size.toNat := by
  obtain ⟨fields, -, h⟩ := Option.bind_eq_some_iff.1 h
  obtain ⟨searchText, -, h⟩ := Option.bind_eq_some_iff.1 h
  obtain ⟨filter, -, h⟩ := Option.bind_eq_some_iff.1 h
  obtain ⟨sorts, -, h⟩ := Option.bind_eq_some_iff.1 h
  obtain ⟨pagination, hpagination, h⟩ := Option.bind_eq_some_iff.1 h
  obtain ⟨facetFields, -, h⟩ := Option.bind_eq_some_iff.1 h
  obtain rfl := Option.some.inj h
  rcases Json.defaulted_eq_some hpagination with rfl | ⟨v, hv⟩
  · exact Pagination.one_le_size_default
  · exact Pagination.one_le_size_of_ofJson? hv

end Criteria

/-! ## Pages -/

theorem Facet.undoes : Undoes ofJson? toJson := by
  intro f
  unfold Facet.ofJson?
  refine Option.bind_eq_some_iff.2 ⟨_, rfl, ?_⟩
  refine Option.bind_eq_some_iff.2 ⟨_, Json.undoes_string.required rfl, ?_⟩
  refine Option.bind_eq_some_iff.2 ⟨_, Json.undoes_string.required rfl, ?_⟩
  refine Option.bind_eq_some_iff.2 ⟨_, Json.undoes_nat64.tableOf.required rfl, ?_⟩
  rfl

namespace Page

variable {page : Page Json}

theorem ofJson?_toJson (page : Page Json) :
    ofJson? page.toJson = some { page with pagination := page.pagination.normal } := by
  have hpagination := page.pagination.ofJson?_toJson
  unfold ofJson?
  refine Option.bind_eq_some_iff.2 ⟨_, rfl, ?_⟩
  refine Option.bind_eq_some_iff.2 ⟨_, Json.undoes_array.required rfl, ?_⟩
  refine Option.bind_eq_some_iff.2 ⟨_, (Json.required_of_get? rfl).trans hpagination, ?_⟩
  refine Option.bind_eq_some_iff.2 ⟨_, Json.undoes_nat64.required rfl, ?_⟩
  refine Option.bind_eq_some_iff.2 ⟨_, Facet.undoes.listOf.defaulted rfl, ?_⟩
  refine Option.bind_eq_some_iff.2 ⟨_, Json.undoes_string.tableOf.tableOf.defaulted rfl, ?_⟩
  rfl

theorem one_le_size_of_ofJson? {v : Json} (h : ofJson? v = some page) :
    1 ≤ page.pagination.size.toNat := by
  obtain ⟨fields, -, h⟩ := Option.bind_eq_some_iff.1 h
  obtain ⟨items, -, h⟩ := Option.bind_eq_some_iff.1 h
  obtain ⟨pagination, hpagination, h⟩ := Option.bind_eq_some_iff.1 h
  obtain ⟨totalCount, -, h⟩ := Option.bind_eq_some_iff.1 h
  obtain ⟨facets, -, h⟩ := Option.bind_eq_some_iff.1 h
  obtain ⟨actions, -, h⟩ := Option.bind_eq_some_iff.1 h
  obtain rfl := Option.some.inj h
  obtain ⟨v, -, hv⟩ := Json.required_eq_some_iff.1 hpagination
  exact Pagination.one_le_size_of_ofJson? hv

end Page

theorem Criteria.ofJson?_toJson_eq_iff (c : Criteria) :
    ofJson? c.toJson = some c ↔ 1 ≤ c.pagination.size.toNat := by
  obtain ⟨searchText, filter, sorts, pagination, facetFields⟩ := c
  rw [ofJson?_toJson, ← Pagination.normal_eq_iff]
  simp only [Option.some.injEq, mk.injEq, true_and, and_true]

theorem Page.ofJson?_toJson_eq_iff (page : Page Json) :
    ofJson? page.toJson = some page ↔ 1 ≤ page.pagination.size.toNat := by
  obtain ⟨items, pagination, totalCount, facets, actions⟩ := page
  rw [ofJson?_toJson, ← Pagination.normal_eq_iff]
  simp only [Option.some.injEq, mk.injEq, true_and, and_true]

/-- Criteria and pages are decoded as they were encoded, exactly if their page size is not zero.
Whatever is decoded has its pagination in range, so that it is encoded and decoded as it is; and the
numbers in range are those nearest to the whole numbers given. -/
theorem decoding_undoes_encoding :
    (∀ c : Criteria, Criteria.ofJson? c.toJson = some c ↔ 1 ≤ c.pagination.size.toNat) ∧
    (∀ page : Page Json, Page.ofJson? page.toJson = some page ↔
      1 ≤ page.pagination.size.toNat) ∧
    (∀ v c, Criteria.ofJson? v = some c →
      c.pagination.InRange ∧ Criteria.ofJson? c.toJson = some c) ∧
    (∀ v page, Page.ofJson? v = some page →
      page.pagination.InRange ∧ Page.ofJson? page.toJson = some page) ∧
    ∀ (n m : Number) (page size : Int), n.toInt? = some page → m.toInt? = some size →
      page < 2 ^ 63 → size < 2 ^ 63 →
      ∃ p, Pagination.ofJson? (.object [("page", .number n), ("size", .number m)]) = some p ∧
        (p.page.toNat : Int) = min (max 0 page) (2 ^ 32 - 1) ∧
        (p.size.toNat : Int) = min (max 1 size) (2 ^ 32 - 1) := by
  refine ⟨Criteria.ofJson?_toJson_eq_iff, Page.ofJson?_toJson_eq_iff, fun v c h => ?_,
    fun v page h => ?_, fun n m page size hn hm hpage hsize => ?_⟩
  · have hsize := Criteria.one_le_size_of_ofJson? h
    exact ⟨Pagination.inRange_iff.2 hsize, (Criteria.ofJson?_toJson_eq_iff c).2 hsize⟩
  · have hsize := Page.one_le_size_of_ofJson? h
    exact ⟨Pagination.inRange_iff.2 hsize, (Page.ofJson?_toJson_eq_iff page).2 hsize⟩
  · exact ⟨_, Pagination.ofJson?_of_toInt? hn hm hpage hsize,
      Pagination.toNat_clamp (Int.le_refl 0) page, Pagination.toNat_clamp (by decide) size⟩

/-- A page with the greatest numbers there are, and criteria in order without their names, whose
pagination is out of range at both ends. -/
theorem decoding_undoes_encoding_at_the_limits :
    let page : Page Json :=
      { items := [.null, .object [("id", .string "7")]], pagination := ⟨0xFFFFFFFF, 1⟩,
        totalCount := 0xFFFFFFFFFFFFFFFF,
        facets := [⟨"state", "State", [("open", 0xFFFFFFFFFFFFFFFF)]⟩],
        actions := [("next", [("href", "/2"), ("rel", "next")])] }
    let least : Number := .int (-2 ^ 63) (by decide)
    let greatest : Number := .int (2 ^ 63 - 1) (by decide)
    let v : Json := .array [.string "x", .null, .array [.array [.string "name"]],
      .object [("page", .number least), ("pages", .null), ("size", .number greatest)]]
    let c : Criteria :=
      { searchText := "x", sorts := [{ field := "name" }], pagination := ⟨0, 0xFFFFFFFF⟩ }
    Page.ofJson? page.toJson = some page ∧ page.pagination.InRange ∧
      Criteria.ofJson? v = some c ∧ c.pagination.InRange ∧ Criteria.ofJson? c.toJson = some c ∧
      ∃ p, Pagination.ofJson? (.object [("page", .number greatest), ("size", .number least)]) =
        some p ∧ p.page.toNat = 2 ^ 32 - 1 ∧ p.size.toNat = 1 := by
  intro page least greatest v c
  have hsize : 1 ≤ page.pagination.size.toNat := by decide
  have hv : Criteria.ofJson? v = some c := by rfl
  obtain ⟨-, hpage, hcriteria, hdecoded, hclamped⟩ := decoding_undoes_encoding
  obtain ⟨p, hp, hgreatest, hleast⟩ :=
    hclamped greatest least _ _ rfl rfl (by decide) (by decide)
  have hencoded := (hpage page).2 hsize
  obtain ⟨hpageRange, -⟩ := hdecoded page.toJson page hencoded
  obtain ⟨hrange, hagain⟩ := hcriteria v c hv
  exact ⟨hencoded, hpageRange, hv, hrange, hagain, p, hp, by omega, by omega⟩

end FilterQuery
