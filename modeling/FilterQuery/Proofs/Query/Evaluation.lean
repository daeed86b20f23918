import FilterQuery.Query.Clause

/-! What the search backend says of a document when it is asked a query. Compound queries have their
meaning here; every other query is left to an oracle, which decides it on one object at a time. -/

namespace FilterQuery.Query

/-- A document as it is indexed: its root object, and the nested objects under each path. -/
structure IndexedDocument (α : Type) where
  root : α
  under : String → List α

def minimumShould (parts : List (String × Json)) : Nat :=
  (((Table.get? parts "minimum_should_match").bind Json.toUInt64?).getD 0).toNat

section
variable {α : Type} (oracle : α → Json → Bool) (d : IndexedDocument α)

mutual

/-- Whether a query holds on an object of the document. -/
def holds : Json → α → Bool
  | .object [("bool", .object parts)], o =>
    (conditions "must" parts o).all id && (conditions "filter" parts o).all id
      && (conditions "must_not" parts o).all not
      && minimumShould parts ≤ (conditions "should" parts o).count true
  | .object [("nested", .object parts)], o =>
    match (Table.get? parts "path").bind Json.toString? with
    | some path => (d.under path).any fun inner => (conditions "query" parts inner).all id
    | none => oracle o (.object [("nested", .object parts)])
  | .object [("match_all", _)], _ => true
  | q, o => oracle o q

/-- How the queries under `key` come out, of which there may be one or a list. -/
def conditions (key : String) : List (String × Json) → α → List Bool
  | [], _ => []
  | (k, .array qs) :: parts, o =>
    (if k = key then holdsEach qs o else []) ++ conditions key parts o
  | (k, q) :: parts, o => (if k = key then [holds q o] else []) ++ conditions key parts o

def holdsEach : List Json → α → List Bool
  | [], _ => []
  | q :: qs, o => holds q o :: holdsEach qs o

end

variable {oracle d} {o : α}

theorem holdsEach_eq_map (qs : List Json) :
    holdsEach oracle d qs o = qs.map (holds oracle d · o) := by
  induction qs with
  | nil => simp only [holdsEach, List.map_nil]
  | cons q qs ih => simp only [holdsEach, List.map_cons, ih]

theorem conditions_nil (key : String) : conditions oracle d key [] o = [] := by
  simp only [conditions]

theorem conditions_array (key k : String) (qs : List Json) (parts : List (String × Json)) :
    conditions oracle d key ((k, .array qs) :: parts) o =
      (if k = key then qs.map (holds oracle d · o) else []) ++ conditions oracle d key parts o := by
  simp only [conditions, holdsEach_eq_map]

theorem conditions_object (key k : String) (fields parts : List (String × Json)) :
    conditions oracle d key ((k, .object fields) :: parts) o =
      (if k = key then [holds oracle d (.object fields) o] else [])
        ++ conditions oracle d key parts o := by
  rw [conditions]
  intro qs h
  cases h

theorem conditions_of_ne {key k : String} (h : k ≠ key) (v : Json) (parts : List (String × Json)) :
    conditions oracle d key ((k, v) :: parts) o = conditions oracle d key parts o := by
  cases v <;> simp only [conditions, if_neg h, List.nil_append]

theorem holds_bool (parts : List (String × Json)) :
    holds oracle d (.single "bool" (.object parts)) o =
      ((conditions oracle d "must" parts o).all id && (conditions oracle d "filter" parts o).all id
        && (conditions oracle d "must_not" parts o).all not
        && minimumShould parts ≤ (conditions oracle d "should" parts o).count true) := by
  simp only [Json.single, holds]

theorem holds_leaf {kind : String} (v : Json) (hbool : kind ≠ "bool") (hnested : kind ≠ "nested")
    (hall : kind ≠ "match_all") :
    holds oracle d (.single kind v) o = oracle o (.single kind v) := by
  rw [Json.single, holds]
  all_goals simp_all

end

end FilterQuery.Query
