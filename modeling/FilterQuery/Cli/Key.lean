import FilterQuery.Cli.Settings

/-! The settings by the names that they have on the command line and in the environment. -/

namespace FilterQuery.Cli

inductive Key where
  | collection
  | search
  | filter
  | sort
  | page
  | size
  | facet
  | scopeFilter
  | nodes
  | indexPrefix
  | username
  | password
  | timeoutMs
  | logLevel
  | defaultPageSize
  | maxPageSize
  | explain
  | help
  deriving DecidableEq, Repr

namespace Key

def all : List Key :=
  [collection, search, filter, sort, page, size, facet, scopeFilter, nodes, indexPrefix, username,
   password, timeoutMs, logLevel, defaultPageSize, maxPageSize, explain, help]

def long? : Key → Option String
  | collection => none
  | search => "search"
  | filter => "filter"
  | sort => "sort"
  | page => "page"
  | size => "size"
  | facet => "facet"
  | scopeFilter => "scope-filter"
  | nodes => "elasticsearch-nodes"
  | indexPrefix => "elasticsearch-index-prefix"
  | username => "elasticsearch-username"
  | password => "elasticsearch-password"
  | timeoutMs => "elasticsearch-timeout-ms"
  | logLevel => "log-level"
  | defaultPageSize => "default-page-size"
  | maxPageSize => "max-page-size"
  | explain => "explain"
  | help => "help"

def short? : Key → Option Char
  | search => 'q'
  | filter => 'f'
  | sort => 's'
  | page => 'p'
  | help => 'h'
  | _ => none

def environmentName? : Key → Option String
  | facet | explain | help => none
  | collection => "QUARRY_COLLECTION"
  | search => "QUARRY_SEARCH"
  | filter => "QUARRY_FILTER"
  | sort => "QUARRY_SORT"
  | page => "QUARRY_PAGE"
  | size => "QUARRY_SIZE"
  | scopeFilter => "QUARRY_SCOPE_FILTER"
  | nodes => "QUARRY_ELASTICSEARCH_NODES"
  | indexPrefix => "QUARRY_ELASTICSEARCH_INDEX_PREFIX"
  | username => "QUARRY_ELASTICSEARCH_USERNAME"
  | password => "QUARRY_ELASTICSEARCH_PASSWORD"
  | timeoutMs => "QUARRY_ELASTICSEARCH_TIMEOUT_MS"
  | logLevel => "QUARRY_LOG_LEVEL"
  | defaultPageSize => "QUARRY_DEFAULT_PAGE_SIZE"
  | maxPageSize => "QUARRY_MAX_PAGE_SIZE"

def ofLong? (name : String) : Option Key := all.find? (·.long? = some name)

def ofShort? (letter : Char) : Option Key := all.find? (·.short? = some letter)

def takesValue : Key → Bool
  | explain | help => false
  | _ => true

def repeats : Key → Bool
  | facet => true
  | _ => false

def takesNegative : Key → Bool
  | page | size => true
  | _ => false

end Key

def int64? (text : String) : Option Int :=
  (Decimal.readInt? text.toList).filter fun v => -2 ^ 63 ≤ v ∧ v < 2 ^ 63

def uint64? (text : String) : Option UInt64 :=
  ((Decimal.readNat? text.toList).filter (· < 2 ^ 64)).map .ofNat

def uint32? (text : String) : Option UInt32 :=
  ((Decimal.readInt? text.toList).filter fun v => 0 ≤ v ∧ v < 2 ^ 32).map (.ofNat ·.toNat)

def Settings.set? (s : Settings) (key : Key) (text : String) : Option Settings :=
  match key with
  | .collection => some { s with collection := text }
  | .search => some { s with search := text }
  | .filter => some { s with filter := text }
  | .sort => some { s with sort := text }
  | .page => (int64? text).map fun page => { s with page }
  | .size => (int64? text).map fun size => { s with size := some size }
  | .facet => some { s with facets := s.facets ++ [text] }
  | .scopeFilter => some { s with scopeFilter := text }
  | .nodes => some { s with nodes := text }
  | .indexPrefix => some { s with indexPrefix := text }
  | .username => some { s with username := text }
  | .password => some { s with password := text }
  | .timeoutMs => (uint64? text).map fun timeoutMs => { s with timeoutMs }
  | .logLevel => some { s with logLevel := text }
  | .defaultPageSize => (uint32? text).map fun defaultPageSize => { s with defaultPageSize }
  | .maxPageSize => (uint32? text).map fun maxPageSize => { s with maxPageSize }
  | .explain => some { s with explain := true }
  | .help => some s

end FilterQuery.Cli
