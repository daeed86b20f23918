import FilterQuery.Criteria.Basic
import FilterQuery.Page.Basic
import FilterQuery.Search.Error

/-! Responses of the search backend, and the pages made of them. -/

namespace FilterQuery.Search

abbrev Document := Table Json

structure Hit where
  id : Option String
  source : Document

/-- The stored document, with its identifier under `id` where it has nothing there itself. -/
def Hit.document (h : Hit) : Document :=
  match h.id with
  | some id => h.source.insertNew "id" (.string id)
  | none => h.source

def Hit.ofJson (v : Json) : Except Malformed Hit :=
  let id := (v.get? "_id").bind Json.toString?
  match v.get? "_source" with
  | none | some .null => .ok ⟨id, []⟩
  | some (.object source) => .ok ⟨id, source⟩
  | some source => .error (.sourceNotObject source)

structure Response where
  body : Json

namespace Response

def hitsSection (r : Response) : Except Malformed (Table Json) :=
  match (r.body.get? "hits").bind Json.toObject? with
  | some fields => .ok fields
  | none => .error .noHitsSection

/-- The hits in order; one that is no hit spoils them all. -/
def hits (r : Response) : Except Malformed (List Hit) := do
  match ((← r.hitsSection).get? "hits").bind Json.toArray? with
  | some hits => hits.mapM Hit.ofJson
  | none => .error .noHitsArray

def statedTotal? : Json → Option UInt64
  | .number n => n.toUInt64?
  | .object fields => (Table.get? fields "value").bind Json.toUInt64?
  | _ => none

def total (r : Response) : Except Malformed UInt64 := do
  match ((← r.hitsSection).get? "total").bind statedTotal? with
  | some n => .ok n
  | none => .ok (.ofNat (← r.hits).length)

/-- The value that a bucket counts, and how often; without a count it is zero. -/
def bucket? (v : Json) : Option (String × UInt64) := do
  let key ← v.get? "key_as_string" <|> v.get? "key"
  let text := match key with
    | .string s => s
    | key => key.compact
  some (text, ((v.get? "doc_count").bind Json.toUInt64?).getD 0)

def buckets? (r : Response) (name : String) : Option (List (String × UInt64)) := do
  let buckets ← (← (← (← r.body.get? "aggregations").get? name).get? "buckets").toArray?
  some (buckets.filterMap bucket?)

variable {α : Type}

def page (r : Response) (c : Criteria) (mapper : Document → Option α) :
    Except Malformed (Page α) := do
  let totalCount ← r.total
  let hits ← r.hits
  .ok {
    items := (hits.take c.pagination.limit.toNat).filterMap fun h => mapper h.document
    pagination := c.pagination
    totalCount
    facets := c.facetFields.filterMap fun f => (r.buckets? f).map (Facet.ofCounts f) }

end Response

end FilterQuery.Search
