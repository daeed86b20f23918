import FilterQuery.Proofs.Fallible
import FilterQuery.Search.Session

/-! The filters that searches read, the calls that they make, and the results that they make of the
answers. -/

namespace FilterQuery.Search

open Expression Query Fallible

/-! ## The filters that a search is confined by -/

def readFilter (filter : Option String) : Except SearchError (Option Node) :=
  match filter.bind Text.nonBlank with
  | some text => (parseFilter text).map some
  | none => .ok none

theorem callerFilter_eq (c : Criteria) : callerFilter c = readFilter c.filter := rfl

theorem Scope.tree_eq (s : Scope) : s.tree = readFilter s.filter := rfl

theorem map_parseFilter_eq_ok_iff {text : String} {t : Option Node} :
    (parseFilter text).map some = .ok t ↔ ∃ n, parse text = .ok n ∧ some n = t := by
  rw [map_eq_ok_iff]
  exact exists_congr fun n => and_congr_left fun _ => mapError_eq_ok_iff

theorem readFilter_cases {filter : Option String} {tree : Option Node}
    (h : readFilter filter = .ok tree) :
    (filter.bind Text.nonBlank = none ∧ tree = none) ∨
      ∃ text n, filter.bind Text.nonBlank = some text ∧ parse text = .ok n ∧ tree = some n := by
  unfold readFilter at h
  split at h
  · next text htext =>
    obtain ⟨n, hn, rfl⟩ := map_parseFilter_eq_ok_iff.1 h
    exact .inr ⟨text, n, htext, hn, rfl⟩
  · next hnone => exact .inl ⟨hnone, (Except.ok.inj h).symm⟩

/-! ## Answers, calls and results -/

variable {α : Type}

structure Answers where
  reply : Except BackendError Response
  existence : Except BackendError Bool

def Backend.answers (b : Backend) : Answers := ⟨b.reply, b.existence⟩

def Answers.backend (a : Answers) (calls : List Call) : Backend := ⟨a.reply, a.existence, calls⟩

def resultOf (c : Criteria) (mapper : Document → Option α) :
    Except BackendError Response → Except SearchError (Page α)
  | .error e => .error (.backendUnavailable e)
  | .ok response => (response.page c mapper).mapError .malformedResponse

def requestCalls (index : String) (request : Except SearchError Request) : List Call :=
  match request with
  | .ok r => [.search index r.body]
  | .error _ => []

def searchCalls (index : String) (c : Criteria) (filter : Option Node) : List Call :=
  requestCalls index (buildRequest c filter)

/-- The calls of a search under a scope: a probe once both filters are read, and a search where the
index is known to exist. -/
def scopedCalls (existence : Except BackendError Bool) (index : String) (c : Criteria) (s : Scope) :
    List Call :=
  match effectiveFilter c s, existence with
  | .error _, _ => []
  | .ok filter, .ok true => .probe index :: searchCalls index c filter
  | .ok _, _ => [.probe index]

/-! ## What a search returns, and what it leaves

Each search is given whole, as the pair of its result and the backend after it, so that a result is
seen to depend on the answers alone and the calls to be added to those before. -/

section
variable (a : Answers) (b : Backend) (index : String) (c : Criteria) (s : Scope)
  (mapper : Document → Option α)

def resultFor (request : Except SearchError Request) : Except SearchError (Page α) :=
  request >>= fun _ => resultOf c mapper a.reply

def scopedResult : Except SearchError (Page α) := do
  let filter ← effectiveFilter c s
  if a.existence.toOption.getD false then resultFor a c mapper (buildRequest c filter)
  else .ok (.empty c.pagination)

theorem run_searchParsed (filter : Option Node) :
    (Backend.client.searchParsed index c filter mapper).run b =
      (resultFor b.answers c mapper (buildRequest c filter),
        b.answers.backend (b.calls ++ searchCalls index c filter)) := by
  unfold Client.searchParsed searchCalls
  cases buildRequest c filter with
  | error e => exact Prod.ext rfl (congrArg b.answers.backend (List.append_nil _).symm)
  | ok request =>
    simp only
    rw [StateT.run_bind, Backend.run_client_search]
    obtain ⟨reply, existence, calls⟩ := b
    cases reply <;> rfl

theorem run_searchPage :
    (Backend.client.searchPage index c mapper).run b =
      (resultFor b.answers c mapper (explain c),
        b.answers.backend (b.calls ++ requestCalls index (explain c))) := by
  unfold Client.searchPage explain
  cases callerFilter c with
  | error e => exact Prod.ext rfl (congrArg b.answers.backend (List.append_nil _).symm)
  | ok filter => exact run_searchParsed b index c mapper filter

theorem run_verifyIndex :
    (Backend.client.verifyIndex index).run b =
      (b.existence.toOption.getD false, b.record (.probe index)) := by
  unfold Client.verifyIndex
  rw [StateT.run_bind, Backend.run_client_indexExists]
  cases b.existence <;> rfl

theorem run_searchScoped :
    (Backend.client.searchScoped index c s mapper).run b =
      (scopedResult b.answers c s mapper,
        b.answers.backend (b.calls ++ scopedCalls b.existence index c s)) := by
  unfold Client.searchScoped scopedResult scopedCalls
  cases effectiveFilter c s with
  | error e => exact Prod.ext rfl (congrArg b.answers.backend (List.append_nil _).symm)
  | ok filter =>
    -- The probe comes first, and its answer decides about the search.
    simp only
    rw [StateT.run_bind, run_verifyIndex]
    obtain ⟨reply, existence, calls⟩ := b
    match existence with
    | .error _ | .ok false => rfl
    | .ok true =>
      refine (run_searchParsed _ index c mapper filter).trans (Prod.ext rfl ?_)
      exact congrArg (Backend.mk _ _) (List.append_assoc calls _ _)

theorem calls_searchScoped :
    ((Backend.client.searchScoped index c s mapper).run b).2.calls =
      b.calls ++ scopedCalls b.existence index c s :=
  congrArg (·.2.calls) (run_searchScoped b index c s mapper)

end

theorem search_mem_scopedCalls {existence : Except BackendError Bool} {index target : String}
    {c : Criteria} {s : Scope} {body : Json}
    (h : .search target body ∈ scopedCalls existence index c s) :
    target = index ∧ ∃ filter request, effectiveFilter c s = .ok filter ∧
      buildRequest c filter = .ok request ∧ body = request.body := by
  unfold scopedCalls at h
  split at h
  · cases h
  · next filter hfilter =>
    obtain h | h := List.mem_cons.1 h
    · cases h
    unfold searchCalls requestCalls at h
    split at h
    · next request hrequest =>
      cases List.mem_singleton.1 h
      exact ⟨rfl, filter, request, hfilter, hrequest, rfl⟩
    · cases h
  · cases List.mem_singleton.1 h

end FilterQuery.Search
