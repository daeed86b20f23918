import FilterQuery.Search.Response
import FilterQuery.Search.Scope

/-! Searches through a client of the search backend, whose calls have the effects of a monad. -/

namespace FilterQuery.Search

open Expression

structure Client (m : Type → Type) where
  search (index : String) (body : Json) : m (Except BackendError Response)
  indexExists (index : String) : m (Except BackendError Bool)

namespace Client

variable {m : Type → Type} [Monad m] {α : Type}

/-- The page of results under a filter that takes the place of the criteria's own. -/
def searchParsed (client : Client m) (index : String) (c : Criteria) (filter : Option Node)
    (mapper : Document → Option α) : m (Except SearchError (Page α)) := do
  match buildRequest c filter with
  | .error e => pure (.error e)
  | .ok request =>
    match ← client.search index request.body with
    | .error e => pure (.error (.backendUnavailable e))
    | .ok response => pure ((response.page c mapper).mapError .malformedResponse)

def searchPage (client : Client m) (index : String) (c : Criteria)
    (mapper : Document → Option α) : m (Except SearchError (Page α)) :=
  match callerFilter c with
  | .error e => pure (.error e)
  | .ok filter => client.searchParsed index c filter mapper

/-- Whether the index is known to exist; where that cannot be told it is not. -/
def verifyIndex (client : Client m) (index : String) : m Bool := do
  match ← client.indexExists index with
  | .ok found => pure found
  | .error _ => pure false

/-- The page of results for criteria under a scope, which is empty where the index does not exist.
Both filters are read before the first call. -/
def searchScoped (client : Client m) (index : String) (c : Criteria) (s : Scope)
    (mapper : Document → Option α) : m (Except SearchError (Page α)) := do
  match effectiveFilter c s with
  | .error e => pure (.error e)
  | .ok filter =>
    if ← client.verifyIndex index then client.searchParsed index c filter mapper
    else pure (.ok (.empty c.pagination))

end Client

/-- What searches are made through. Its clones have the same client. -/
structure Engine (m : Type → Type) where
  client : Client m

structure Service (m : Type → Type) where
  engine : Engine m

section
variable {m : Type → Type}

def Engine.clone (e : Engine m) : Engine m := ⟨e.client⟩

def Service.clone (s : Service m) : Service m := ⟨s.engine.clone⟩

end

end FilterQuery.Search
