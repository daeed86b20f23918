import Mathlib
import FilterQuery.Cli.DryRun
import FilterQuery.Proofs.Fallible
import FilterQuery.Proofs.Search.Calls

/-! Dry runs show what is sent. A search makes one call for the request that is explained, whatever
client it goes through, and none where there is no request to explain. -/

namespace FilterQuery

namespace Cli

open Fallible Search

def Refusal.error : Refusal → SearchError
  | .filter e => .invalidFilter e
  | .search e => e

theorem mapError_search {α : Type} (x : Except SearchError α) :
    (x.mapError Refusal.search).mapError Refusal.error = x :=
  (mapError_mapError ..).trans (mapError_id x)

theorem mapError_caller (c : Criteria) :
    ((c.filter?.mapM Expression.parse).mapError Refusal.filter).mapError Refusal.error =
      callerFilter c := by
  rw [mapError_mapError]
  unfold callerFilter parseFilter
  cases c.filter? with
  | none => rfl
  | some text =>
    simp only [Option.mapM_some]
    cases Expression.parse text <;> rfl

/-- A filter is compiled and put into a request as an engine does it. -/
theorem explain_eq (c : Criteria) (s : Scope) : explain c s = (do
    let caller ← (c.filter?.mapM Expression.parse).mapError .filter
    let filter ← (s.apply caller).mapError .search
    (buildRequest c filter).mapError .search) := by
  unfold explain
  refine bind_congr fun caller => bind_congr fun filter => ?_
  cases filter with
  | none => rfl
  | some n =>
    simp only [Option.mapM_some, buildRequest, compileFilter]
    cases Query.compile n <;> rfl

/-- The dry run of the command line builds the request of a search under a scope, from the same
parts in the same order. -/
theorem mapError_explain (c : Criteria) (s : Scope) :
    (explain c s).mapError Refusal.error = effectiveFilter c s >>= buildRequest c := by
  rw [explain_eq]
  unfold effectiveFilter
  simp only [mapError_bind, mapError_caller, mapError_search, bind_assoc]

end Cli

namespace Search

open Expression Fallible

/-! ## The calls of a search -/

section
variable {m : Type → Type} [Monad m]

def Client.recording (client : Client m) : Client (StateT (List Call) m) where
  search index body := do
    modify (· ++ [.search index body])
    client.search index body
  indexExists index := do
    modify (· ++ [.probe index])
    client.indexExists index

variable [LawfulMonad m] {α : Type} (client : Client m) (index : String) (c : Criteria)
  (mapper : Document → Option α) (calls : List Call)

theorem run_recording_search (body : Json) :
    (client.recording.search index body).run calls =
      (·, calls ++ [.search index body]) <$> client.search index body := by
  simp [Client.recording]

theorem run_recording_indexExists :
    (client.recording.indexExists index).run calls =
      (·, calls ++ [.probe index]) <$> client.indexExists index := by
  simp [Client.recording]

theorem run_recording_verifyIndex :
    (client.recording.verifyIndex index).run calls =
      (fun found => (found.toOption.getD false, calls ++ [.probe index])) <$>
        client.indexExists index := by
  unfold Client.verifyIndex
  rw [StateT.run_bind, run_recording_indexExists, bind_map_left, map_eq_pure_bind]
  refine bind_congr fun found => ?_
  cases found <;> rfl

theorem run_recording_searchParsed (filter : Option Node) :
    (client.recording.searchParsed index c filter mapper).run calls =
      match buildRequest c filter with
      | .error e => pure (.error e, calls)
      | .ok request =>
        (fun reply => (resultOf c mapper reply, calls ++ [.search index request.body])) <$>
          client.search index request.body := by
  unfold Client.searchParsed
  cases buildRequest c filter with
  | error e => rfl
  | ok request =>
    simp only
    rw [StateT.run_bind, run_recording_search, bind_map_left, map_eq_pure_bind]
    refine bind_congr fun reply => ?_
    cases reply <;> rfl

theorem run_recording_searchPage :
    (client.recording.searchPage index c mapper).run calls =
      match explain c with
      | .error e => pure (.error e, calls)
      | .ok request =>
        (fun reply => (resultOf c mapper reply, calls ++ [.search index request.body])) <$>
          client.search index request.body := by
  unfold Client.searchPage explain
  cases callerFilter c with
  | error e => rfl
  | ok filter => exact run_recording_searchParsed client index c mapper calls filter

theorem run_recording_searchScoped (s : Scope) :
    (client.recording.searchScoped index c s mapper).run calls =
      match effectiveFilter c s with
      | .error e => pure (.error e, calls)
      | .ok filter =>
        client.indexExists index >>= fun found =>
          if found.toOption.getD false then
            (client.recording.searchParsed index c filter mapper).run (calls ++ [.probe index])
          else pure (.ok (.empty c.pagination), calls ++ [.probe index]) := by
  unfold Client.searchScoped
  cases effectiveFilter c s with
  | error e => rfl
  | ok filter =>
    simp only
    rw [StateT.run_bind, run_recording_verifyIndex, bind_map_left]
    refine bind_congr fun found => ?_
    cases found.toOption.getD false <;> rfl

end

/-! ## Clients that answer by a state of their own -/

section
variable {σ α : Type} (client : Client (StateM σ)) (state : σ) (index : String) (c : Criteria)
  (mapper : Document → Option α)

/-- What an operation comes to, and the calls that it makes, where the client is in `state`. -/
def observed {β : Type} (operation : StateT (List Call) (StateM σ) β) (state : σ) : β × List Call :=
  ((operation.run []).run state).1

theorem observed_searchPage :
    observed (client.recording.searchPage index c mapper) state =
      match explain c with
      | .error e => (.error e, [])
      | .ok request =>
        (resultOf c mapper ((client.search index request.body).run state).1,
          [.search index request.body]) := by
  unfold observed
  rw [run_recording_searchPage]
  cases explain c <;> rfl

theorem observed_searchScoped (s : Scope) {state' : σ}
    (hexists : (client.indexExists index).run state = (.ok true, state')) :
    observed (client.recording.searchScoped index c s mapper) state =
      match effectiveFilter c s with
      | .error e => (.error e, [])
      | .ok filter =>
        match buildRequest c filter with
        | .error e => (.error e, [.probe index])
        | .ok request =>
          (resultOf c mapper ((client.search index request.body).run state').1,
            [.probe index, .search index request.body]) := by
  unfold observed
  rw [run_recording_searchScoped]
  cases effectiveFilter c s with
  | error e => rfl
  | ok filter =>
    simp only
    rw [StateT.run_bind, hexists]
    change (((client.recording.searchParsed index c filter mapper).run [.probe index]).run state').1
      = _
    rw [run_recording_searchParsed]
    cases buildRequest c filter <;> rfl

theorem explain_eq_ok_iff_sent (s : Scope) {state' : σ}
    (hexists : (client.indexExists index).run state = (.ok true, state')) (r : Query.Request) :
    Cli.explain c s = .ok r ↔
      (observed (client.recording.searchScoped index c s mapper) state).2 =
        [.probe index, .search index r.body] := by
  have hrequest := Cli.mapError_explain c s
  rw [observed_searchScoped client state index c mapper s hexists,
    ← mapError_eq_ok_iff (f := Cli.Refusal.error), hrequest, bind_eq_ok_iff]
  cases effectiveFilter c s with
  | error e => exact ⟨fun ⟨_, h, _⟩ => (nomatch h), nofun⟩
  | ok filter =>
    simp only [Except.ok.injEq, exists_eq_left']
    cases buildRequest c filter with
    | error e => exact ⟨nofun, nofun⟩
    | ok request =>
      obtain ⟨body⟩ := request
      obtain ⟨body'⟩ := r
      simp

theorem observed_of_refused {s : Scope} {state' : σ} {refusal : Cli.Refusal}
    (hexists : (client.indexExists index).run state = (.ok true, state'))
    (h : Cli.explain c s = .error refusal) :
    ∃ probes, observed (client.recording.searchScoped index c s mapper) state =
      (.error refusal.error, probes) ∧ ∀ target body, .search target body ∉ probes := by
  have hrequest := Cli.mapError_explain c s
  rw [h] at hrequest
  rw [observed_searchScoped client state index c mapper s hexists]
  rcases bind_eq_error_iff.1 hrequest.symm with hfilter | ⟨filter, hfilter, hbuild⟩
  · rw [hfilter]
    exact ⟨[], rfl, fun _ _ => List.not_mem_nil⟩
  · rw [hfilter]
    simp only [hbuild]
    exact ⟨[.probe index], rfl, fun _ _ hmem => nomatch List.mem_singleton.1 hmem⟩

end

/-- What is explained is what is sent. A search makes a single call, with the body of the request
that is explained, and where there is none it makes no call and fails as the explanation does. The
same holds of a search under a scope and the dry run of the command line, once the index is found. -/
theorem explained_request_is_sent {σ α : Type} (client : Client (StateM σ)) (state : σ)
    (index : String) (c : Criteria) (mapper : Document → Option α) :
    (∀ r, explain c = .ok r →
      (observed (client.recording.searchPage index c mapper) state).2 = [.search index r.body]) ∧
    (∀ e, explain c = .error e →
      observed (client.recording.searchPage index c mapper) state = (.error e, [])) ∧
    ∀ s : Scope, ((client.indexExists index).run state).1 = .ok true →
      (∀ r, Cli.explain c s = .ok r ↔
        (observed (client.recording.searchScoped index c s mapper) state).2 =
          [.probe index, .search index r.body]) ∧
      ∀ refusal, Cli.explain c s = .error refusal →
        (observed (client.recording.searchScoped index c s mapper) state).1 =
          .error refusal.error ∧
        ∀ target body, .search target body ∉
          (observed (client.recording.searchScoped index c s mapper) state).2 := by
  have hpage := observed_searchPage client state index c mapper
  refine ⟨fun r hr => ?_, fun e he => ?_, fun s hexists => ?_⟩
  · rw [hpage, hr]
  · rw [hpage, he]
  have hprobe : (client.indexExists index).run state = (.ok true, _) := Prod.ext hexists rfl
  refine ⟨explain_eq_ok_iff_sent client state index c mapper s hprobe, fun refusal hrefusal => ?_⟩
  obtain ⟨probes, hobserved, hprobes⟩ :=
    observed_of_refused client state index c mapper hprobe hrefusal
  rw [hobserved]
  exact ⟨rfl, hprobes⟩

/-- Under a scope that has no query the index is probed, and nothing is sent. -/
theorem explained_request_is_sent_scoped :
    let c : Criteria := { filter := some "a = null" }
    let absent (field : String) : Query.Clause := .no (.present field)
    let own := Query.Request.assemble c (some (absent "a").toJson)
    let both := Query.Request.assemble c (some (Query.Clause.every [absent "a", absent "b"]).toJson)
    let refusal : Cli.Refusal := .search (.unsupportedOperator (.nullOperand .gt))
    let run (s : Scope) := observed
      (Backend.client.recording.searchScoped "people" c s (some : Document → Option Document)) {}
    (explain c = .ok own ∧
      (observed (Backend.client.recording.searchPage "people" c
        (some : Document → Option Document)) {}).2 = [.search "people" own.body]) ∧
      ((Backend.client.indexExists "people").run {}).1 = .ok true ∧
      (Cli.explain c ⟨some "b = null"⟩ = .ok both ∧
        (run ⟨some "b = null"⟩).2 = [.probe "people", .search "people" both.body]) ∧
      Cli.explain c ⟨some "b > null"⟩ = .error refusal ∧
        (run ⟨some "b > null"⟩).1 = .error refusal.error ∧
        ∀ target body, .search target body ∉ (run ⟨some "b > null"⟩).2 := by
  intro c absent own both refusal run
  have ha : parse "a = null" = .ok (.comparison ⟨"a"⟩ .eq .null) := by cbv
  have hb : parse "b = null" = .ok (.comparison ⟨"b"⟩ .eq .null) := by cbv
  have hgt : parse "b > null" = .ok (.comparison ⟨"b"⟩ .gt .null) := by cbv
  have hfilter : c.filter? = some "a = null" := rfl
  have hown : explain c = .ok own := by
    simp only [explain, callerFilter, hfilter, parseFilter, ha]
    rfl
  have hscope (text : String) (n : Node) (hblank : Text.nonBlank text = some text)
      (hn : parse text = .ok n) : Cli.explain c ⟨some text⟩ = (buildRequest c (some
        (.logical .and [.group (.comparison ⟨"a"⟩ .eq .null), n]))).mapError .search := by
    simp only [Cli.explain_eq, hfilter, Option.mapM_some, ha, Scope.apply, Scope.tree,
      Option.bind_some, hblank, parseFilter, hn]
    rfl
  have hboth : Cli.explain c ⟨some "b = null"⟩ = .ok both := hscope _ _ rfl hb
  have hrefused : Cli.explain c ⟨some "b > null"⟩ = .error refusal := hscope _ _ rfl hgt
  have hexists : ((Backend.client.indexExists "people").run {}).1 = .ok true := rfl
  obtain ⟨hsent, -, hscoped⟩ := explained_request_is_sent Backend.client {} "people" c
    (some : Document → Option Document)
  exact ⟨⟨hown, hsent own hown⟩, hexists, ⟨hboth, ((hscoped _ hexists).1 both).1 hboth⟩, hrefused,
    (hscoped _ hexists).2 refusal hrefused⟩

end Search

end FilterQuery
