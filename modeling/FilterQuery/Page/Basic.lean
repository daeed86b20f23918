import FilterQuery.Criteria.Pagination
import FilterQuery.Page.Facet

/-! Pages of search results. -/

namespace FilterQuery

structure Page (α : Type) where
  items : List α
  pagination : Pagination
  totalCount : UInt64
  facets : List Facet := []
  actions : Table (Table String) := []
  deriving DecidableEq, Repr

namespace Page

variable {α β : Type}

def empty (pagination : Pagination) : Page α := { items := [], pagination, totalCount := 0 }

def isEmpty (p : Page α) : Bool := p.items.isEmpty

def length (p : Page α) : Nat := p.items.length

def totalPages (p : Page α) : UInt64 :=
  let size := (max p.pagination.size 1).toUInt64
  p.totalCount / size + if p.totalCount % size = 0 then 0 else 1

def hasNext (p : Page α) : Bool := p.pagination.page.toUInt64 + 1 < p.totalPages

def hasPrevious (p : Page α) : Bool := 0 < p.pagination.page

def map (f : α → β) (p : Page α) : Page β := { p with items := p.items.map f }

def toJson (p : Page Json) : Json :=
  .object [("actions", .ofTable (.ofTable .string) p.actions),
    ("facets", .array (p.facets.map Facet.toJson)), ("items", .array p.items),
    ("pagination", p.pagination.toJson), ("total_count", .ofNat64 p.totalCount)]

def ofJson? (v : Json) : Option (Page Json) := do
  let fields ← v.record? ["items", "pagination", "total_count", "facets", "actions"]
  let items ← Json.required Json.toArray? fields "items"
  let pagination ← Json.required Pagination.ofJson? fields "pagination"
  let totalCount ← Json.required Json.toUInt64? fields "total_count"
  let facets ← Json.defaulted [] (Json.listOf? Facet.ofJson?) fields "facets"
  let actions ← Json.defaulted [] (Json.tableOf? (Json.tableOf? Json.toString?)) fields "actions"
  some { items, pagination, totalCount, facets, actions }

end Page

end FilterQuery
