import Mathlib
import FilterQuery.Proofs.Fallible
import FilterQuery.Proofs.Search.Calls

/-! Runs of operations against one backend, of any length and in any order. Each operation makes the
calls that are its own, according to the answers in force, and takes no notice of what came before.
Answers can be set between any two operations, and none of these asks for the same one twice. -/

namespace FilterQuery.Search

open Expression Query Fallible

/-- That a text can be read, if it is given and is not blank. -/
def Parses (filter : Option String) : Prop :=
  ∀ text, filter = some text → ¬text.toList.all Text.isBlank → ∃ n, parse text = .ok n

def Readable (c : Criteria) (s : Scope) : Prop := Parses c.filter ∧ Parses s.filter

/-- One search for the request, whose answer decides the outcome, or none where there is no
request. -/
def Sends (a : Answers) (index : String) (c : Criteria) (request : Except SearchError Request)
    (mapper : Document → Option Json) (outcome : Outcome) (calls : List Call) : Prop :=
  (∀ r, request = .ok r →
    calls = [.search index r.body] ∧ outcome = .page (resultOf c mapper a.reply)) ∧
  ∀ e, request = .error e → calls = [] ∧ outcome = .page (.error e)

/-- The calls that each kind of operation may make under the answers in force, and what it has to
come to. -/
def Disciplined (a : Answers) (outcome : Outcome) (calls : List Call) : Operation → Prop
  | .setReply _ | .setExistence _ | .clone => outcome = .done ∧ calls = []
  | .parse c => outcome = .filter (callerFilter c) ∧ calls = []
  | .explain c => outcome = .request (explain c) ∧ calls = []
  | .buildRequest c filter => outcome = .request (buildRequest c filter) ∧ calls = []
  | .effectiveFilter c s => outcome = .filter (effectiveFilter c s) ∧ calls = []
  | .verifyIndex index =>
    (∃ found, outcome = .existence found ∧ (found ↔ a.existence = .ok true)) ∧
      calls = [.probe index]
  | .search index c mapper => Sends a index c (explain c) mapper outcome calls
  | .searchParsed index c filter mapper =>
    Sends a index c (buildRequest c filter) mapper outcome calls
  | .searchScoped index c s mapper =>
    (¬Readable c s → calls = [] ∧ ∃ e, effectiveFilter c s = .error (.invalidFilter e) ∧
      outcome = .page (.error (.invalidFilter e))) ∧
    (Readable c s → ∃ filter, effectiveFilter c s = .ok filter ∧
      (a.existence ≠ .ok true →
        calls = [.probe index] ∧ outcome = .page (.ok (.empty c.pagination))) ∧
      (a.existence = .ok true → ∃ searches, calls = .probe index :: searches ∧
        Sends a index c (buildRequest c filter) mapper outcome searches))

/-! ## One operation -/

namespace Operation

def amend (op : Operation) (a : Answers) : Answers :=
  match op with
  | .setReply reply => { a with reply }
  | .setExistence existence => { a with existence }
  | _ => a

def effect (op : Operation) (a : Answers) : Outcome × List Call :=
  let (outcome, b) := op.run.run (a.backend [])
  (outcome, b.calls)

end Operation

theorem sends_resultFor (a : Answers) (index : String) (c : Criteria)
    (mapper : Document → Option Json) (request : Except SearchError Request) :
    Sends a index c request mapper (.page (resultFor a c mapper request))
      (requestCalls index request) := by
  constructor <;> rintro _ rfl <;> exact ⟨rfl, rfl⟩

theorem parses_cases (filter : Option String) :
    (Parses filter ∧ ∃ tree, readFilter filter = .ok tree) ∨
      ¬Parses filter ∧ ∃ e, readFilter filter = .error (.invalidFilter e) := by
  simp only [Parses, readFilter, ← and_imp, ← Text.bind_nonBlank_eq_some_iff]
  cases filter.bind Text.nonBlank with
  | none => exact .inl ⟨nofun, _, rfl⟩
  | some text =>
    simp only [Option.some.injEq, forall_eq', parseFilter]
    cases parse text with
    | ok n => exact .inl ⟨⟨n, rfl⟩, _, rfl⟩
    | error e => exact .inr ⟨nofun, e, rfl⟩

theorem effectiveFilter_cases (c : Criteria) (s : Scope) :
    (Readable c s ∧ ∃ filter, effectiveFilter c s = .ok filter) ∨
      ¬Readable c s ∧ ∃ e, effectiveFilter c s = .error (.invalidFilter e) := by
  unfold effectiveFilter Scope.apply
  rw [callerFilter_eq, s.tree_eq]
  obtain ⟨hcaller, caller, hc⟩ | ⟨hcaller, e, he⟩ := parses_cases c.filter
  · rw [hc]
    obtain ⟨hscope, scope, hs⟩ | ⟨hscope, e, he⟩ := parses_cases s.filter
    · exact .inl ⟨⟨hcaller, hscope⟩, combine caller scope, by rw [hs]; rfl⟩
    · exact .inr ⟨fun h => hscope h.2, e, by rw [he]; rfl⟩
  · exact .inr ⟨fun h => hcaller h.1, e, by rw [he]; rfl⟩

theorem found_iff (existence : Except BackendError Bool) :
    existence.toOption.getD false ↔ existence = .ok true := by
  match existence with
  | .ok true | .ok false | .error _ => simp [Except.toOption]

theorem disciplined_scoped (a : Answers) (index : String) (c : Criteria) (s : Scope)
    (mapper : Document → Option Json) :
    Disciplined a (.page (scopedResult a c s mapper)) (scopedCalls a.existence index c s)
      (.searchScoped index c s mapper) := by
  unfold scopedResult scopedCalls
  obtain ⟨hread, filter, hfilter⟩ | ⟨hread, e, he⟩ := effectiveFilter_cases c s
  · refine ⟨fun h => absurd hread h, fun _ => ⟨filter, hfilter, ?_, ?_⟩⟩
    · intro hmissing
      have hnot : ¬a.existence.toOption.getD false := (not_congr (found_iff _)).2 hmissing
      rw [hfilter]
      refine ⟨?_, congrArg Outcome.page (if_neg hnot)⟩
      match h : a.existence with
      | .ok true => exact absurd h hmissing
      | .ok false | .error _ => rfl
    · intro hfound
      rw [hfilter, hfound]
      exact ⟨_, rfl, sends_resultFor a index c mapper _⟩
  · rw [he]
    exact ⟨fun _ => ⟨rfl, e, he, rfl⟩, fun h => absurd h hread⟩

/-- What an operation comes to and the calls that it adds are fixed by the answers, whatever the
calls before it were. -/
theorem exists_run_eq (a : Answers) (op : Operation) : ∃ outcome calls,
    (∀ earlier, op.run.run (a.backend earlier) =
      (outcome, (op.amend a).backend (earlier ++ calls))) ∧ Disciplined a outcome calls op := by
  cases op with
  | setReply | setExistence | clone | parse | explain | buildRequest | effectiveFilter =>
    refine ⟨_, [], fun earlier => ?_, rfl, rfl⟩
    exact Prod.ext rfl (congrArg (Backend.mk _ _) (List.append_nil earlier).symm)
  | verifyIndex index =>
    refine ⟨_, _, fun earlier => ?_, ⟨_, rfl, found_iff a.existence⟩, rfl⟩
    simp only [Operation.run, Operation.runOn, StateT.run_bind, run_verifyIndex]
    rfl
  | search index c mapper =>
    refine ⟨_, _, fun earlier => ?_, sends_resultFor a index c mapper _⟩
    simp only [Operation.run, Operation.runOn, StateT.run_bind, run_searchPage]
    rfl
  | searchParsed index c filter mapper =>
    refine ⟨_, _, fun earlier => ?_, sends_resultFor a index c mapper _⟩
    simp only [Operation.run, Operation.runOn, StateT.run_bind, run_searchParsed]
    rfl
  | searchScoped index c s mapper =>
    refine ⟨_, _, fun earlier => ?_, disciplined_scoped a index c s mapper⟩
    simp only [Operation.run, Operation.runOn, StateT.run_bind, run_searchScoped]
    rfl

theorem run_eq_and_disciplined (a : Answers) (op : Operation) :
    (∀ earlier, op.run.run (a.backend earlier) =
      ((op.effect a).1, (op.amend a).backend (earlier ++ (op.effect a).2))) ∧
    Disciplined a (op.effect a).1 (op.effect a).2 op := by
  obtain ⟨outcome, calls, hrun, hdisciplined⟩ := exists_run_eq a op
  have heffect : op.effect a = (outcome, calls) := by
    unfold Operation.effect
    rw [hrun]
    rfl
  rw [heffect]
  exact ⟨hrun, hdisciplined⟩

/-! ## Runs -/

def session (ops : List Operation) : StateM Backend (List Outcome) := sessionOn {} ops

/-- Clones have the client of what they were cloned from, and there is no more to a handle. -/
theorem handles_eq (op : Operation) (h : Handles) : op.handles h = h := by
  cases op <;> rfl

theorem session_cons (op : Operation) (ops : List Operation) :
    session (op :: ops) = op.run >>= fun outcome => (outcome :: ·) <$> session ops := by
  show (op.runOn {} >>= fun outcome =>
    sessionOn (op.handles {}) ops >>= fun outcomes => pure (outcome :: outcomes)) = _
  rw [handles_eq]
  rfl

def answersAfter (a : Answers) (ops : List Operation) : Answers :=
  ops.foldl (fun a op => op.amend a) a

def effects : Answers → List Operation → List (Outcome × List Call)
  | _, [] => []
  | a, op :: ops => op.effect a :: effects (op.amend a) ops

theorem run_session (ops : List Operation) (b : Backend) :
    (session ops).run b = ((effects b.answers ops).map Prod.fst,
      (answersAfter b.answers ops).backend
        (b.calls ++ (effects b.answers ops).flatMap Prod.snd)) := by
  induction ops generalizing b with
  | nil => exact Prod.ext rfl (congrArg b.answers.backend (List.append_nil _).symm)
  | cons op ops ih =>
    have hrun : op.run.run b = _ := (run_eq_and_disciplined b.answers op).1 b.calls
    rw [session_cons, StateT.run_bind, hrun]
    show (_ <$> session ops).run _ = _
    rw [StateT.run_map, ih]
    exact Prod.ext rfl (congrArg (Backend.mk _ _) (List.append_assoc ..))

theorem effects_append (a : Answers) (before behind : List Operation) :
    effects a (before ++ behind) =
      effects a before ++ effects (answersAfter a before) behind := by
  induction before generalizing a with
  | nil => rfl
  | cons op before ih => exact congrArg _ (ih (op.amend a))

theorem length_effects (a : Answers) (ops : List Operation) :
    (effects a ops).length = ops.length := by
  induction ops generalizing a with
  | nil => rfl
  | cons op ops ih => exact congrArg _ (ih (op.amend a))

theorem getElem?_effects (a : Answers) (before behind : List Operation) (op : Operation) :
    (effects a (before ++ op :: behind))[before.length]? =
      some (op.effect (answersAfter a before)) := by
  rw [effects_append, ← length_effects a before, List.getElem?_append_right (Nat.le_refl _),
    Nat.sub_self]
  rfl

end FilterQuery.Search
