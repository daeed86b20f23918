import FilterQuery.Criteria.Pagination
import FilterQuery.Criteria.SortKey

/-! What a search asks for. -/

namespace FilterQuery

structure Criteria where
  searchText : Option String := none
  filter : Option String := none
  sorts : List SortKey := []
  pagination : Pagination := .default
  facetFields : List String := []
  deriving DecidableEq, Repr

namespace Criteria

/-- Criteria from the text of parameters; blank text counts as none. -/
def ofParams (search filter sort : Option String) (page size : Option Int) : Criteria where
  searchText := search.bind Text.trimmed
  filter := filter.bind Text.trimmed
  sorts := sort.elim [] SortKey.readList
  pagination :=
    .ofInts (page.getD Pagination.default.page.toNat) (size.getD Pagination.default.size.toNat)

def withFacet (c : Criteria) (field : String) : Criteria :=
  { c with facetFields := c.facetFields ++ [field] }

def searchText? (c : Criteria) : Option String := c.searchText.bind Text.nonBlank

def filter? (c : Criteria) : Option String := c.filter.bind Text.nonBlank

theorem searchText?_eq_some_iff {c : Criteria} {text : String} :
    c.searchText? = some text ↔ c.searchText = some text ∧ ¬text.toList.all Text.isBlank :=
  Text.bind_nonBlank_eq_some_iff

theorem filter?_eq_some_iff {c : Criteria} {text : String} :
    c.filter? = some text ↔ c.filter = some text ∧ ¬text.toList.all Text.isBlank :=
  Text.bind_nonBlank_eq_some_iff

def toJson (c : Criteria) : Json :=
  .object [("facet_fields", .strings c.facetFields), ("filter", .ofString? c.filter),
    ("pagination", c.pagination.toJson), ("search_text", .ofString? c.searchText),
    ("sorts", .array (c.sorts.map SortKey.toJson))]

def ofJson? (v : Json) : Option Criteria := do
  let fields ← v.record? ["search_text", "filter", "sorts", "pagination", "facet_fields"]
  let searchText ← Json.defaulted none (Json.nullable Json.toString?) fields "search_text"
  let filter ← Json.defaulted none (Json.nullable Json.toString?) fields "filter"
  let sorts ← Json.defaulted [] (Json.listOf? SortKey.ofJson?) fields "sorts"
  let pagination ← Json.defaulted .default Pagination.ofJson? fields "pagination"
  let facetFields ← Json.defaulted [] (Json.listOf? Json.toString?) fields "facet_fields"
  some { searchText, filter, sorts, pagination, facetFields }

end Criteria

end FilterQuery
