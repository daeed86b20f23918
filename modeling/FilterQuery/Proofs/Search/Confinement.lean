import Mathlib
import FilterQuery.Proofs.Query.Assembly
import FilterQuery.Proofs.Query.Meaning
import FilterQuery.Proofs.Search.Calls

/-! A search under a scope asks for no document outside it, whatever the caller's filter is. -/

namespace FilterQuery.Search

open Expression Query Fallible

def CompilesTo (text : String) (q : Clause) : Prop := ∃ n, parse text = .ok n ∧ compile n = .ok q

theorem tree_of_scope {s : Scope} {text : String} {scope : Option Node} (hs : s.filter = some text)
    (hblank : ¬text.toList.all Text.isBlank) (h : s.tree = .ok scope) :
    ∃ n, parse text = .ok n ∧ scope = some n := by
  have hsome : s.filter.bind Text.nonBlank = some text :=
    Text.bind_nonBlank_eq_some_iff.2 ⟨hs, hblank⟩
  obtain ⟨hnone, -⟩ | ⟨read, n, hread, hn, hscope⟩ := readFilter_cases h
  · cases hnone.symm.trans hsome
  · obtain rfl := Option.some.inj (hread.symm.trans hsome)
    exact ⟨n, hn, hscope⟩

theorem compile_combined {m n : Node} {q : Clause}
    (h : compile (.logical .and [.group m, n]) = .ok q) :
    ∃ r t, compile m = .ok r ∧ compile n = .ok t ∧ q = .every [r, t] := by
  obtain ⟨queries, hall, hq⟩ := compile_logical_eq_ok_iff.1 h
  obtain ⟨r, rest, hr, hrest, rfl⟩ := compileAll_cons_eq_ok_iff.1 hall
  obtain ⟨t, ts, ht, hts, rfl⟩ := compileAll_cons_eq_ok_iff.1 hrest
  obtain rfl := Except.ok.inj hts
  exact ⟨r, t, hr, ht, (Except.ok.inj hq).symm⟩

theorem get?_query_assemble (c : Criteria) (filter : Option Json) :
    (Request.assemble c filter).body.get? "query" = some (Request.query c.searchText? filter) :=
  Request.get?_assemble c filter "query"

section
variable {α : Type} (oracle : α → Json → Bool) (d : IndexedDocument α)

def MatchesText (text : String) : Prop :=
  oracle d.root (.object [("multi_match", .object [("fields", .array [.string "*"]),
    ("fuzziness", .string "AUTO"), ("query", .string text), ("type", .string "best_fields")])])

def PassesFilter (text : String) : Prop :=
  ∃ q, CompilesTo text q ∧ holds oracle d q.toJson d.root

variable {oracle d}

theorem holds_textQuery (text : String) :
    holds oracle d (textQuery text) d.root ↔ MatchesText oracle d text := by
  unfold textQuery
  rw [holds_leaf _ (by decide) (by decide) (by decide)]
  rfl

theorem holds_query (text : Option String) (filter : Option Clause) :
    holds oracle d (Request.query text (filter.map Clause.toJson)) d.root ↔
      (∀ t, text = some t → MatchesText oracle d t) ∧
        ∀ q, filter = some q → holds oracle d q.toJson d.root := by
  simp only [← holds_textQuery]
  cases text <;> cases filter
  · simp [Request.query, Json.single, holds]
  all_goals
    simp only [Request.query, Option.map_none, Option.map_some, Option.toList, List.map]
    rw [holds_bool]
    simp [conditions_array, conditions_nil, minimumShould, Table.get?, List.lookup_cons]

theorem CompilesTo.passesFilter_iff {text : String} {q : Clause} (h : CompilesTo text q) :
    PassesFilter oracle d text ↔ holds oracle d q.toJson d.root := by
  refine ⟨fun ⟨r, hr, hholds⟩ => ?_, fun hholds => ⟨q, h, hholds⟩⟩
  obtain ⟨n, hn, hq⟩ := h
  obtain ⟨m, hm, hr⟩ := hr
  obtain rfl := Except.ok.inj (hn.symm.trans hm)
  obtain rfl := Except.ok.inj (hq.symm.trans hr)
  exact hholds

end

theorem compiles_of_confined {c : Criteria} {s : Scope} {text : String} {filter : Option Node}
    {request : Request} (hs : s.filter = some text) (hblank : ¬text.toList.all Text.isBlank)
    (hfilter : effectiveFilter c s = .ok filter) (hrequest : buildRequest c filter = .ok request) :
    ∃ q t, request = Request.assemble c (some q.toJson) ∧ CompilesTo text t ∧
      ((c.filter? = none ∧ q = t) ∨
        ∃ own r, c.filter? = some own ∧ CompilesTo own r ∧ q = .every [r, t]) := by
  obtain ⟨caller, hcaller, hscope⟩ := bind_eq_ok_iff.1 hfilter
  obtain ⟨scope, htree, hcombine⟩ := map_eq_ok_iff.1 hscope
  obtain ⟨n, hn, rfl⟩ := tree_of_scope hs hblank htree
  obtain ⟨json, hjson, rfl⟩ := map_eq_ok_iff.1 hrequest
  obtain ⟨hnone, rfl⟩ | ⟨own, m, hown, hm, rfl⟩ := readFilter_cases hcaller
  · obtain rfl : some n = filter := hcombine
    obtain ⟨q, hq, rfl⟩ := map_eq_ok_iff.1 hjson
    have hq := mapError_eq_ok_iff.1 hq
    exact ⟨q, q, rfl, ⟨n, hn, hq⟩, .inl ⟨hnone, rfl⟩⟩
  · obtain rfl : some (.logical .and [.group m, n]) = filter := hcombine
    obtain ⟨q, hq, rfl⟩ := map_eq_ok_iff.1 hjson
    obtain ⟨r, t, hr, ht, rfl⟩ := compile_combined (mapError_eq_ok_iff.1 hq)
    exact ⟨_, t, rfl, ⟨n, hn, ht⟩, .inr ⟨own, r, hown, ⟨m, hm, hr⟩, rfl⟩⟩

/-- Every search that a scoped search sends goes to its own index, and asks for the documents that
match the text, pass the caller's filter and pass the scope, as far as text and caller's filter are
given and not blank. Both filters have been read and compiled by then. -/
theorem scope_confines_search {β : Type} (b : Backend) (index : String) (c : Criteria) (s : Scope)
    (mapper : Document → Option β) {scope : String} (hs : s.filter = some scope)
    (hblank : ¬scope.toList.all Text.isBlank) {calls : List Call}
    (hcalls : ((Backend.client.searchScoped index c s mapper).run b).2.calls = b.calls ++ calls)
    {target : String} {body : Json} (hsent : .search target body ∈ calls) :
    target = index ∧ (∃ q, CompilesTo scope q) ∧
      (∀ own, c.filter = some own → ¬own.toList.all Text.isBlank → ∃ q, CompilesTo own q) ∧
      ∃ query, body.get? "query" = some query ∧
        ∀ {α : Type} (oracle : α → Json → Bool) (d : IndexedDocument α),
          holds oracle d query d.root ↔
            (∀ text, c.searchText = some text → ¬text.toList.all Text.isBlank →
              MatchesText oracle d text) ∧
            (∀ own, c.filter = some own → ¬own.toList.all Text.isBlank →
              PassesFilter oracle d own) ∧
            PassesFilter oracle d scope := by
  rw [calls_searchScoped, List.append_cancel_left_eq] at hcalls
  rw [← hcalls] at hsent
  obtain ⟨htarget, filter, request, hfilter, hrequest, rfl⟩ := search_mem_scopedCalls hsent
  obtain ⟨q, t, rfl, ht, hown⟩ := compiles_of_confined hs hblank hfilter hrequest
  -- From here on the text and the caller's filter are those that the request was made of.
  simp only [← and_imp, ← Criteria.filter?_eq_some_iff, ← Criteria.searchText?_eq_some_iff]
  refine ⟨htarget, ⟨t, ht⟩, ?_, _, get?_query_assemble c _, ?_⟩
  · rintro text htext
    obtain ⟨hnone, -⟩ | ⟨own, r, hown, hr, -⟩ := hown
    · rw [hnone] at htext
      cases htext
    · obtain rfl := Option.some.inj (hown.symm.trans htext)
      exact ⟨r, hr⟩
  · intro α oracle d
    show holds oracle d (Request.query c.searchText? ((some q).map Clause.toJson)) d.root ↔ _
    rw [holds_query, ht.passesFilter_iff]
    apply and_congr_right
    intro _
    obtain ⟨hnone, rfl⟩ | ⟨own, r, hown, hr, rfl⟩ := hown
    · simp [hnone]
    · simp [hown, hr.passesFilter_iff, holds_every]

/-- The caller's `or` does not reach past its group, and the text is searched for beside it. -/
theorem scope_confines_or_chain :
    let c : Criteria := { searchText := some "ann", filter := some "a eq 'x' or b eq 'y'" }
    ∃ body query,
      ((Backend.client.searchScoped "people" c ⟨some "owner eq 'me'"⟩
          (some : Document → Option Document)).run {}).2.calls =
        [.probe "people", .search "people" body] ∧
      body.get? "query" = some query ∧
      ∀ {α : Type} (oracle : α → Json → Bool) (d : IndexedDocument α),
        holds oracle d query d.root ↔
          MatchesText oracle d "ann" ∧ PassesFilter oracle d "a eq 'x' or b eq 'y'" ∧
            PassesFilter oracle d "owner eq 'me'" := by
  intro c
  have hown : parse "a eq 'x' or b eq 'y'" = .ok (.logical .or
    [.comparison ⟨"a"⟩ .eq (.string "x"), .comparison ⟨"b"⟩ .eq (.string "y")]) := by cbv
  have hscope : parse "owner eq 'me'" = .ok (.comparison ⟨"owner"⟩ .eq (.string "me")) := by cbv
  have hcalls := calls_searchScoped {} "people" c ⟨some "owner eq 'me'"⟩
    (some : Document → Option Document)
  have hfilter : c.filter? = some "a eq 'x' or b eq 'y'" := rfl
  have hgiven : Text.nonBlank "owner eq 'me'" = some "owner eq 'me'" := rfl
  simp only [scopedCalls, effectiveFilter, callerFilter, hfilter, Scope.apply, Scope.tree,
    Option.bind_some, hgiven, parseFilter, hown, hscope] at hcalls
  obtain ⟨-, -, -, query, hquery, hholds⟩ := scope_confines_search {} "people" c
    ⟨some "owner eq 'me'"⟩ (some : Document → Option Document) rfl
    (Text.nonBlank_eq_some_iff.1 hgiven).2 hcalls
    (List.mem_cons_of_mem _ (List.mem_singleton_self _))
  refine ⟨_, query, hcalls, hquery, fun oracle d => (hholds oracle d).trans ?_⟩
  have htext : ¬"ann".toList.all Text.isBlank := by decide
  have htree : ¬"a eq 'x' or b eq 'y'".toList.all Text.isBlank := by decide
  simp only [c, Option.some.injEq, forall_eq', htext, htree, Bool.false_eq_true,
    not_false_eq_true, true_implies]

end FilterQuery.Search
