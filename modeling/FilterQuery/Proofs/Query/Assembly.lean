import Mathlib
import FilterQuery.Proofs.Json
import FilterQuery.Proofs.Table
import FilterQuery.Query.Request

/-! The parts of a request. Each stands under a key of its own, and can be read off there. -/

namespace FilterQuery.Query.Request

variable {c d : Criteria} {filter filter' : Option Json}

/-! ## The keys of a request -/

def aggregations? (fields : List String) : Option Json :=
  if fields.isEmpty then none else some (aggregations fields)

/-- The part of a request under a key, which is the same whatever the fields are called. -/
def part (c : Criteria) (filter : Option Json) : (key : String) → Option Json
  | "aggs" => aggregations? c.facetFields
  | "from" => some (.ofNat64 c.pagination.offset)
  | "query" => some (query c.searchText? filter)
  | "size" => some (.ofNat32 c.pagination.limit)
  | "sort" => sortClauses? c.sorts
  | "track_total_hits" => some (.bool true)
  | _ => none

theorem get?_assemble (c : Criteria) (filter : Option Json) (key : String) :
    (assemble c filter).body.get? key = part c filter key := by
  unfold assemble
  fun_cases part c filter key
  case case1 =>
    unfold aggregations?
    cases c.facetFields.isEmpty <;> cases sortClauses? c.sorts <;> rfl
  case case7 =>
    unfold Json.get? Table.get?
    rw [List.lookup_eq_none_iff]
    cases c.facetFields.isEmpty <;> cases sortClauses? c.sorts <;> simp_all
  all_goals cases c.facetFields.isEmpty <;> cases sortClauses? c.sorts <;> rfl

theorem part_eq_of_body_eq (h : (assemble c filter).body = (assemble d filter').body)
    (key : String) : part c filter key = part d filter' key := by
  rw [← get?_assemble, h, get?_assemble]

theorem offset_assemble (c : Criteria) (filter : Option Json) :
    (assemble c filter).offset = c.pagination.offset := by
  rw [offset, get?_assemble]
  exact congrArg (·.getD 0) (Json.toUInt64?_ofNat64 _)

theorem limit_assemble (c : Criteria) (filter : Option Json) :
    (assemble c filter).limit = c.pagination.limit.toUInt64 := by
  rw [limit, get?_assemble]
  exact congrArg (·.getD 0) (Json.toUInt64?_ofNat32 _)

/-! ## What is read off the parts -/

theorem query_injective {text text' : Option String} (h : query text filter = query text' filter') :
    text = text' ∧ filter = filter' := by
  cases text <;> cases filter <;> cases text' <;> cases filter' <;>
    simp_all [query, Json.single, textQuery]

theorem unmappedType_injective {t t' : ValueType} (h : t.unmappedType = t'.unmappedType) :
    t = t' := by
  revert h
  cases t <;> cases t' <;> decide

theorem clause_injective {s s' : SortKey} (h : s.clause = s'.clause) : s = s' := by
  obtain ⟨field, valueType, descending⟩ := s
  obtain ⟨field', valueType', descending'⟩ := s'
  have hsingle := Json.object.inj h
  obtain ⟨hentry, -⟩ := List.cons.inj hsingle
  obtain ⟨hfield, hoptions⟩ := Prod.mk.inj hentry
  obtain rfl : field = field' := hfield
  -- With the same field, the options for nested documents are the same, and the others adjoin them.
  have hothers := List.append_cancel_left (Json.object.inj hoptions)
  obtain ⟨horder, htype⟩ : (if descending then "desc" else "asc") =
      (if descending' then "desc" else "asc") ∧
      valueType.unmappedType = valueType'.unmappedType := by simpa using hothers
  obtain rfl := unmappedType_injective htype
  obtain rfl : descending = descending' := by
    cases descending <;> cases descending' <;> simp_all
  rfl

theorem sortClauses?_injective {sorts sorts' : List SortKey}
    (h : sortClauses? sorts = sortClauses? sorts') : sorts = sorts' := by
  unfold sortClauses? at h
  split at h
  · next hempty =>
    split at h
    · next hempty' => rw [List.isEmpty_iff.1 hempty, List.isEmpty_iff.1 hempty']
    · cases h
  · split at h
    · cases h
    · have hclauses := Json.array.inj (Option.some.inj h)
      exact (List.map_inj_right fun _ _ => clause_injective).1 hclauses

theorem get?_aggregations? (fields : List String) (field : String) :
    (aggregations? fields).bind (Json.get? field) =
      if field ∈ fields then some (.single "terms" (.single "field" (.string field)))
      else none := by
  unfold aggregations?
  split
  · next hempty => simp [List.isEmpty_iff.1 hempty]
  · let clause (f : String) := Json.single "terms" (.single "field" (.string f))
    exact Table.get?_ofList_map fields clause field

theorem aggregations_congr {fields fields' : List String}
    (h : ∀ field, field ∈ fields ↔ field ∈ fields') :
    fields.isEmpty = fields'.isEmpty ∧ aggregations fields = aggregations fields' := by
  constructor
  · rw [Bool.eq_iff_iff, List.isEmpty_iff, List.isEmpty_iff, List.eq_nil_iff_forall_not_mem,
      List.eq_nil_iff_forall_not_mem]
    simp only [h]
  · refine congrArg Json.object (Table.Ordered.ext (Table.ordered_ofList _)
      (Table.ordered_ofList _) fun key => ?_)
    simp only [Table.get?_ofList_map, h]

theorem mem_iff_of_aggregations?_eq {fields fields' : List String}
    (h : aggregations? fields = aggregations? fields') (field : String) :
    field ∈ fields ↔ field ∈ fields' := by
  have hfield := congrArg (·.bind (Json.get? field)) h
  simp only [get?_aggregations?] at hfield
  split at hfield <;> split at hfield <;> simp_all

theorem pagination_eq {p q : Pagination} (hp : 1 ≤ p.size.toNat) (hoffset : p.offset = q.offset)
    (hlimit : p.limit = q.limit) : p = q := by
  obtain ⟨page, size⟩ := p
  obtain ⟨page', size'⟩ := q
  obtain rfl : size = size' := hlimit
  have hproduct := congrArg UInt64.toNat hoffset
  rw [Pagination.toNat_offset, Pagination.toNat_offset] at hproduct
  obtain rfl : page = page' := UInt32.toNat_inj.1 (Nat.eq_of_mul_eq_mul_right hp hproduct)
  rfl

/-! ## Requests with the same body -/

theorem searchText?_eq_iff : c.searchText? = d.searchText? ↔
    ∀ text, ¬text.toList.all Text.isBlank →
      (c.searchText = some text ↔ d.searchText = some text) := by
  rw [Option.ext_iff]
  simp only [Criteria.searchText?_eq_some_iff, and_congr_left_iff]

theorem parts_of_body_eq (hsize : 1 ≤ c.pagination.size.toNat)
    (h : (assemble c filter).body = (assemble d filter').body) :
    c.searchText? = d.searchText? ∧ filter = filter' ∧ c.sorts = d.sorts ∧
      c.pagination = d.pagination ∧ ∀ field, field ∈ c.facetFields ↔ field ∈ d.facetFields := by
  have hparts := part_eq_of_body_eq h
  obtain ⟨htext, hfilter⟩ := query_injective (Option.some.inj (hparts "query"))
  have hoffset := Json.ofNat64_injective (Option.some.inj (hparts "from"))
  have hlimit := Json.ofNat32_injective (Option.some.inj (hparts "size"))
  exact ⟨htext, hfilter, sortClauses?_injective (hparts "sort"),
    pagination_eq hsize hoffset hlimit, mem_iff_of_aggregations?_eq (hparts "aggs")⟩

theorem body_eq_of_parts (htext : c.searchText? = d.searchText?) (hsorts : c.sorts = d.sorts)
    (hpagination : c.pagination = d.pagination)
    (hfields : ∀ field, field ∈ c.facetFields ↔ field ∈ d.facetFields) :
    (assemble c filter).body = (assemble d filter).body := by
  obtain ⟨hempty, haggregations⟩ := aggregations_congr hfields
  simp only [assemble, htext, hsorts, hpagination, hempty, haggregations]

/-- Two requests have the same body exactly if they search for the same text, where it is not blank,
under the same filter, sort by the same keys in the same order, ask for the same page and count the
same fields. Other sort keys or other fields change their own part of a request and no other,
whatever they are called. -/
theorem same_body_iff_same_parts (c d : Criteria) (filter filter' : Option Json)
    (hsize : 1 ≤ c.pagination.size.toNat) :
    ((assemble c filter).body = (assemble d filter').body ↔
      (∀ text, ¬text.toList.all Text.isBlank →
        (c.searchText = some text ↔ d.searchText = some text)) ∧
      filter = filter' ∧ c.sorts = d.sorts ∧ c.pagination = d.pagination ∧
      ∀ field, field ∈ c.facetFields ↔ field ∈ d.facetFields) ∧
    (∀ sorts key, key ≠ "sort" →
      (assemble { c with sorts } filter).body.get? key = (assemble c filter).body.get? key) ∧
    (∀ facetFields key, key ≠ "aggs" →
      (assemble { c with facetFields } filter).body.get? key =
        (assemble c filter).body.get? key) ∧
    (∀ field, ((assemble c filter).body.get? "aggs").bind (Json.get? field) =
      if field ∈ c.facetFields then some (.single "terms" (.single "field" (.string field)))
      else none) ∧
    (assemble c filter).offset.toNat = c.pagination.page.toNat * c.pagination.size.toNat ∧
    (assemble c filter).limit.toNat = c.pagination.size.toNat := by
  rw [← searchText?_eq_iff]
  refine ⟨⟨parts_of_body_eq hsize, ?_⟩, ?_, ?_, ?_, ?_, ?_⟩
  · rintro ⟨htext, rfl, hsorts, hpagination, hfields⟩
    exact body_eq_of_parts htext hsorts hpagination hfields
  · intro sorts key hkey
    rw [get?_assemble, get?_assemble]
    unfold part
    split
    case h_5 => exact absurd rfl hkey
    all_goals rfl
  · intro facetFields key hkey
    rw [get?_assemble, get?_assemble]
    unfold part
    split
    case h_1 => exact absurd rfl hkey
    all_goals rfl
  · intro field
    rw [get?_assemble]
    exact get?_aggregations? c.facetFields field
  · rw [offset_assemble, Pagination.toNat_offset]
  · rw [limit_assemble, UInt32.toNat_toUInt64]
    rfl

/-- Sort keys and fields that are called like parts of a request. A field that is given twice counts
once, and blank text is none; the direction of a sort key is seen, and so is the text. -/
theorem same_body_iff_same_parts_hostile :
    let keys (descending : Bool) : List SortKey :=
      [{ field := "query", descending }, { field := "aggs", valueType := .long }]
    let c (searchText : Option String) (descending : Bool) (facetFields : List String) : Criteria :=
      { searchText, sorts := keys descending, pagination := ⟨3, 25⟩, facetFields }
    let filter : Json := .single "match_all" (.object [])
    let body (c : Criteria) : Json := (assemble c filter).body
    1 ≤ (c none false []).pagination.size.toNat ∧
      body (c (some " \t") false ["from", "sort", "from"]) = body (c none false ["sort", "from"]) ∧
      body (c (some "ann") false []) ≠ body (c (some "bob") false []) ∧
      body (c (some "ann") false []) ≠ body (c none false []) ∧
      body (c none false []) ≠ body (c none true []) ∧
      (body (c none false ["from"])).get? "from" = (body (c none false [])).get? "from" ∧
      (assemble (c none false ["from"]) filter).offset.toNat = 75 := by
  intro keys c filter body
  have hsize (searchText : Option String) (facetFields : List String) :
      1 ≤ (c searchText false facetFields).pagination.size.toNat := by
    show 1 ≤ (25 : UInt32).toNat
    decide
  have hblank (text : String) (h : ¬text.toList.all Text.isBlank) :
      some " \t" = some text ↔ none = some text := by
    constructor
    · intro htext
      obtain rfl := Option.some.inj htext
      exact absurd (by decide) h
    · intro htext
      cases htext
  refine ⟨hsize _ _, ?_, ?_, ?_, ?_, ?_, ?_⟩
  · apply (same_body_iff_same_parts _ _ _ _ (hsize _ _)).1.2
    refine ⟨hblank, rfl, rfl, rfl, fun field => ?_⟩
    simp only [c, List.mem_cons, List.not_mem_nil]
    tauto
  · intro h
    obtain ⟨htext, -⟩ := (same_body_iff_same_parts _ _ _ _ (hsize _ _)).1.1 h
    exact absurd ((htext "ann" (by decide)).1 rfl) (by decide)
  · intro h
    obtain ⟨htext, -⟩ := (same_body_iff_same_parts _ _ _ _ (hsize _ _)).1.1 h
    exact absurd ((htext "ann" (by decide)).1 rfl) (by decide)
  · intro h
    obtain ⟨-, -, hsorts, -⟩ := (same_body_iff_same_parts _ _ _ _ (hsize _ _)).1.1 h
    exact absurd hsorts (by decide)
  · obtain ⟨-, -, hframe, -⟩ :=
      same_body_iff_same_parts (c none false []) {} filter none (hsize none [])
    exact hframe ["from"] "from" (by decide)
  · obtain ⟨-, -, -, -, hoffset, -⟩ :=
      same_body_iff_same_parts (c none false ["from"]) {} filter none (hsize none ["from"])
    exact hoffset

end FilterQuery.Query.Request
