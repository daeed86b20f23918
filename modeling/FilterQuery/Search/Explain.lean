import FilterQuery.Query.Compilation
import FilterQuery.Query.Request
import FilterQuery.Search.Error

/-! The request that a search sends. -/

namespace FilterQuery.Search

open Expression Query

def parseFilter (text : String) : Except SearchError Node := (parse text).mapError .invalidFilter

def callerFilter (c : Criteria) : Except SearchError (Option Node) :=
  match c.filter? with
  | some text => (parseFilter text).map some
  | none => .ok none

def compileFilter (filter : Option Node) : Except SearchError (Option Json) :=
  match filter with
  | some n => ((compile n).mapError .unsupportedOperator).map fun q => some q.toJson
  | none => .ok none

/-- The request for criteria under a filter that takes the place of their own. -/
def buildRequest (c : Criteria) (filter : Option Node) : Except SearchError Request :=
  (compileFilter filter).map (Request.assemble c)

def explain (c : Criteria) : Except SearchError Request := do buildRequest c (← callerFilter c)

end FilterQuery.Search
