import FilterQuery.Criteria.Basic
import FilterQuery.Search.Scope

/-! The settings of one run of the command line, and what can be wrong with them. -/

namespace FilterQuery.Cli

structure Settings where
  collection : String := ""
  search : Option String := none
  filter : Option String := none
  sort : Option String := none
  page : Int := 0
  size : Option Int := none
  facets : List String := []
  scopeFilter : Option String := none
  explain : Bool := false
  nodes : String := "http://localhost:9200"
  indexPrefix : String := "quarry"
  username : Option String := none
  password : Option String := none
  timeoutMs : UInt64 := 30000
  logLevel : String := "warn"
  defaultPageSize : UInt32 := 10
  maxPageSize : UInt32 := 1000
  deriving DecidableEq, Repr

inductive Problem where
  | blankCollection
  | noNode
  | zeroTimeout
  | halfCredentials
  | zeroDefaultPageSize
  | defaultAboveMax
  deriving DecidableEq, Repr

def Problem.message : Problem → String
  | blankCollection => "Collection cannot be empty"
  | noNode => "At least one Elasticsearch node is required"
  | zeroTimeout => "Elasticsearch timeout cannot be 0"
  | halfCredentials => "Elasticsearch username and password must be given together"
  | zeroDefaultPageSize => "Default page size cannot be 0"
  | defaultAboveMax => "Default page size cannot exceed max page size"

namespace Settings

def nodeUrls (s : Settings) : List String := (Text.entries s.nodes.toList).map .ofList

def has (s : Settings) : Problem → Bool
  | .blankCollection => (Text.nonBlank s.collection).isNone
  | .noNode => s.nodeUrls.isEmpty
  | .zeroTimeout => s.timeoutMs = 0
  | .halfCredentials => s.username.isSome != s.password.isSome
  | .zeroDefaultPageSize => s.defaultPageSize = 0
  | .defaultAboveMax => s.maxPageSize < s.defaultPageSize

def problems (s : Settings) : List Problem :=
  [.blankCollection, .noNode, .zeroTimeout, .halfCredentials, .zeroDefaultPageSize,
    .defaultAboveMax].filter s.has

def effectiveSize (s : Settings) : Int :=
  min (s.size.getD s.defaultPageSize.toNat) s.maxPageSize.toNat

def criteria (s : Settings) : Criteria :=
  { Criteria.ofParams s.search s.filter s.sort (some s.page) (some s.effectiveSize) with
    facetFields := s.facets }

def scope (s : Settings) : Search.Scope := ⟨s.scopeFilter⟩

end Settings

end FilterQuery.Cli
