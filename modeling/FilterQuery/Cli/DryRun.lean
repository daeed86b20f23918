import FilterQuery.Cli.Settings
import FilterQuery.Search.Explain

/-! What a run with given settings prints, and its exit code. Without a backend it can only show the
request that it would send. -/

namespace FilterQuery.Cli

open Search

structure Output where
  code : UInt8
  stdout : String := ""
  stderr : String := ""
  deriving DecidableEq, Repr

def hanging (width : Nat) (text : String) : List Char :=
  text.toList.flatMap fun c => if c = '\n' then '\n' :: List.replicate width ' ' else [c]

def causeLines : List String → List Char
  | [] => []
  | [cause] => "\n\nCaused by:\n    ".toList ++ hanging 4 cause
  | causes =>
    let line (number : Nat) (cause : String) : List Char :=
      let digits := Nat.toDigits 10 number
      '\n' :: List.replicate (5 - digits.length) ' ' ++ digits ++ ':' :: ' ' :: hanging 7 cause
    "\n\nCaused by:".toList ++ (causes.mapIdx line).flatten

def report (message : String) (causes : List String) : String :=
  "Error: " ++ message ++ .ofList (causeLines causes) ++ "\n"

/-- Why there is no request to show: the caller's filter is none, or the search would fail. -/
inductive Refusal where
  | filter (error : Expression.FilterError)
  | search (error : SearchError)

def Refusal.report : Refusal → String
  | filter e => Cli.report e.message []
  | search e => Cli.report e.message e.causes

/-- The request that a search under a scope would send, put together without an engine. -/
def explain (c : Criteria) (s : Scope) : Except Refusal Query.Request := do
  let caller ← (c.filter?.mapM Expression.parse).mapError .filter
  let filter ← (s.apply caller).mapError .search
  let compiled ← (filter.mapM Query.compile).mapError (.search ∘ .unsupportedOperator)
  .ok (.assemble c (compiled.map Query.Clause.toJson))

def explainOutput (c : Criteria) (s : Scope) : Output :=
  match explain c s with
  | .ok request => { code := 0, stdout := request.body.pretty ++ "\n" }
  | .error refusal => { code := 1, stderr := refusal.report }

def noBackend : String :=
  "Searching requires the 'elasticsearch' feature. Use --explain to print the compiled request, "
    ++ "or build with: cargo build -p quarry-cli --features elasticsearch"

def runSettings (s : Settings) : Output :=
  match s.problems with
  | [] =>
    if s.explain then explainOutput s.criteria s.scope
    else { code := 1, stderr := report noBackend [] }
  | problems =>
    { code := 1
      stderr := String.join (problems.map fun p => "Configuration error: " ++ p.message ++ "\n") }

end FilterQuery.Cli
