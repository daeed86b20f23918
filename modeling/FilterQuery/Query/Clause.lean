import FilterQuery.Expression.Literal

/-! Query clauses, and their form in the query language of the search backend. -/

namespace FilterQuery.Query

open Expression

inductive Bound where
  | above
  | atLeast
  | below
  | atMost
  deriving DecidableEq

def Bound.key : Bound → String
  | above => "gt"
  | atLeast => "gte"
  | below => "lt"
  | atMost => "lte"

/-- A condition on a document: on one of its fields, on some nested document under a path, or on how
other conditions come out. -/
inductive Clause where
  | term (field : String) (value : Literal)
  | terms (field : String) (values : List String)
  | range (field : String) (bound : Bound) (value : Literal)
  | wildcard (field pattern : String) (anyCase : Bool)
  | startsWith (field text : String)
  | present (field : String)
  | nested (path : String) (query : Clause)
  | every (queries : List Clause)
  | some (queries : List Clause)
  | no (query : Clause)

namespace Clause

open Json (single)

mutual

def toJson : Clause → Json
  | .term field value => single "term" (single field value.toJson)
  | .terms field values => single "terms" (single field (.strings values))
  | .range field bound value => single "range" (single field (single bound.key value.toJson))
  | .wildcard field pattern anyCase =>
    let options := if anyCase then [("case_insensitive", .bool true)] else []
    single "wildcard" (single field (.object (options ++ [("value", .string pattern)])))
  | .startsWith field text => single "prefix" (single field (single "value" (.string text)))
  | .present field => single "exists" (single "field" (.string field))
  | .nested path query =>
    single "nested" (.object
      [("path", .string path), ("query", query.toJson), ("score_mode", .string "none")])
  | .every queries => single "bool" (single "must" (.array (toJsons queries)))
  | .some queries =>
    single "bool" (.object
      [("minimum_should_match", .number (.ofNat32 1)), ("should", .array (toJsons queries))])
  | .no query => single "bool" (single "must_not" (.array [query.toJson]))

def toJsons : List Clause → List Json
  | [] => []
  | q :: qs => q.toJson :: toJsons qs

end

theorem toJsons_eq_map (qs : List Clause) : toJsons qs = qs.map toJson := by
  induction qs with
  | nil => rfl
  | cons q qs ih => simp [toJsons, ih]

end Clause

end FilterQuery.Query
