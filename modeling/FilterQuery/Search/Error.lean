import FilterQuery.Expression.Basic
import FilterQuery.Json.Printer
import FilterQuery.Query.Defect

/-! What can make a search fail. -/

namespace FilterQuery.Search

inductive BackendError where
  | unavailable (backend message : String)
  | connectionFailed (backend message : String)
  | status (backend : String) (code : UInt16) (message : String)
  | internal (backend message : String) (cause : Option String)
  deriving DecidableEq, Repr

namespace BackendError

def message : BackendError → String
  | unavailable backend message => "backend unavailable: " ++ backend ++ ": " ++ message
  | connectionFailed backend message => "connection failed to " ++ backend ++ ": " ++ message
  | status backend code message =>
    backend ++ " returned status " ++ toString code.toNat ++ ": " ++ message
  | internal backend message _ => "internal error in " ++ backend ++ ": " ++ message

def cause? : BackendError → Option String
  | internal _ _ cause => cause
  | _ => none

end BackendError

inductive Malformed where
  | noHitsSection
  | noHitsArray
  | sourceNotObject (source : Json)

def Malformed.describe : Malformed → String
  | noHitsSection => "response has no hits section"
  | noHitsArray => "hits section has no hits array"
  | sourceNotObject source => "hit _source is not an object: " ++ source.compact

inductive SearchError where
  | invalidFilter (error : Expression.FilterError)
  | backendUnavailable (error : BackendError)
  | unsupportedOperator (defect : Query.Defect)
  | malformedResponse (lack : Malformed)

namespace SearchError

def message : SearchError → String
  | invalidFilter e => "invalid filter: " ++ e.message
  | backendUnavailable e => "search backend unavailable: " ++ e.message
  | unsupportedOperator d => "unsupported operator '" ++ d.operator ++ "': " ++ d.describe
  | malformedResponse m => "malformed search response: " ++ m.describe

def causes : SearchError → List String
  | invalidFilter e => [e.message]
  | backendUnavailable e => e.message :: e.cause?.toList
  | unsupportedOperator _ => []
  | malformedResponse _ => []

end SearchError

end FilterQuery.Search
