import FilterQuery.Criteria.Basic

/-! Search requests. -/

namespace FilterQuery.Query

/-- Ranks documents by how well any of their fields matches `text`, typing errors allowed. -/
def textQuery (text : String) : Json :=
  .single "multi_match" (.object
    [("fields", .strings ["*"]), ("fuzziness", .string "AUTO"), ("query", .string text),
     ("type", .string "best_fields")])

structure Request where
  body : Json

namespace Request

def offset (r : Request) : UInt64 := ((r.body.get? "from").bind Json.toUInt64?).getD 0

def limit (r : Request) : UInt64 := ((r.body.get? "size").bind Json.toUInt64?).getD 0

/-- All documents, or those that match the text and pass the filter, as far as these are given. -/
def query (text : Option String) (filter : Option Json) : Json :=
  match text, filter with
  | none, none => .single "match_all" (.object [])
  | text, filter =>
    let filtering := filter.toList.map fun f => ("filter", Json.array [f])
    let matching := text.toList.map fun t => ("must", Json.array [textQuery t])
    .single "bool" (.object (filtering ++ matching))

def aggregations (fields : List String) : Json :=
  .ofFields (fields.map fun f => (f, .single "terms" (.single "field" (.string f))))

def sortClauses? (sorts : List SortKey) : Option Json :=
  if sorts.isEmpty then none else some (.array (sorts.map SortKey.clause))

def assemble (c : Criteria) (filter : Option Json) : Request :=
  let aggs := if c.facetFields.isEmpty then [] else [("aggs", aggregations c.facetFields)]
  let sort := (sortClauses? c.sorts).toList.map (("sort", ·))
  ⟨.object (aggs ++
    [("from", .ofNat64 c.pagination.offset),
     ("query", query c.searchText? filter),
     ("size", .ofNat32 c.pagination.limit)] ++ sort ++
    [("track_total_hits", .bool true)])⟩

end Request

end FilterQuery.Query
