import FilterQuery.Search.Explain

/-! Searches confined to what a filter of the application's own lets through. -/

namespace FilterQuery.Search

open Expression

structure Scope where
  filter : Option String := none
  deriving DecidableEq, Repr

/-- Both filters, of which the caller's is kept together by a group. -/
def combine : Option Node → Option Node → Option Node
  | some caller, some scope => some (.logical .and [.group caller, scope])
  | some caller, none => some caller
  | none, scope => scope

namespace Scope

def tree (s : Scope) : Except SearchError (Option Node) :=
  match s.filter.bind Text.nonBlank with
  | some text => (parseFilter text).map some
  | none => .ok none

def apply (s : Scope) (caller : Option Node) : Except SearchError (Option Node) :=
  s.tree.map (combine caller)

end Scope

def effectiveFilter (c : Criteria) (s : Scope) : Except SearchError (Option Node) := do
  s.apply (← callerFilter c)

end FilterQuery.Search
