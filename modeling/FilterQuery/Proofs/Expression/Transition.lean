import FilterQuery.Proofs.Expression.Grammar

/-! The transitions of the parser, one for each thing that a token can do, and its runs as sequences
of them. -/

namespace FilterQuery.Expression.Parser

open Grammar Fallible

/-- That the token `t` leads from one state to another. -/
inductive Step : State → Token → State → Prop where
  | not {l : Level} {outer : List Level} {t : Token} : t.kind = .not → l.negated = false →
      State.depth ⟨l, outer, .operand⟩ < maxDepth →
      Step ⟨l, outer, .operand⟩ t ⟨{ l with negated := true }, outer, .operand⟩
  | opening {l : Level} {outer : List Level} {t : Token} : t.kind = .leftParen →
      State.depth ⟨l, outer, .operand⟩ < maxDepth →
      Step ⟨l, outer, .operand⟩ t ⟨.empty, l :: outer, .operand⟩
  | closing {l m : Level} {outer : List Level} {t : Token} : t.kind = .rightParen →
      Step ⟨m, l :: outer, .continuation⟩ t ⟨l.push (.group m.node), outer, .continuation⟩
  | and {l : Level} {outer : List Level} {t : Token} : t.kind = .and →
      Step ⟨l, outer, .continuation⟩ t ⟨l, outer, .operand⟩
  | or {l : Level} {outer : List Level} {t : Token} : t.kind = .or →
      Step ⟨l, outer, .continuation⟩ t ⟨l.nextDisjunct, outer, .operand⟩
  | property {l : Level} {outer : List Level} {t : Token} : t.kind = .identifier →
      Step ⟨l, outer, .operand⟩ t ⟨l, outer, .operator ⟨t.text⟩⟩
  | operator {l : Level} {outer : List Level} {t : Token} {p : Property} {op : Operator} :
      IsOperator t op → Step ⟨l, outer, .operator p⟩ t ⟨l, outer, .literal p op⟩
  | literal {l : Level} {outer : List Level} {t : Token} {p : Property} {op : Operator}
      {v : Literal} : Parser.literal t = .ok v →
      Step ⟨l, outer, .literal p op⟩ t ⟨l.push (.comparison p op v), outer, .continuation⟩
  | function {l : Level} {outer : List Level} {t : Token} {f : FunctionName} : IsFunction t f →
      Step ⟨l, outer, .operand⟩ t ⟨l, outer, .callOpening f⟩
  | callOpening {l : Level} {outer : List Level} {t : Token} {f : FunctionName} :
      t.kind = .leftParen → Step ⟨l, outer, .callOpening f⟩ t ⟨l, outer, .callProperty f⟩
  | callProperty {l : Level} {outer : List Level} {t : Token} {f : FunctionName} :
      t.kind = .identifier → Step ⟨l, outer, .callProperty f⟩ t ⟨l, outer, .callComma f ⟨t.text⟩⟩
  | callComma {l : Level} {outer : List Level} {t : Token} {f : FunctionName} {p : Property} :
      t.kind = .comma → Step ⟨l, outer, .callComma f p⟩ t ⟨l, outer, .callLiteral f p⟩
  | callLiteral {l : Level} {outer : List Level} {t : Token} {f : FunctionName} {p : Property}
      {v : Literal} : Parser.literal t = .ok v →
      Step ⟨l, outer, .callLiteral f p⟩ t ⟨l, outer, .callClosing f p v⟩
  | callClosing {l : Level} {outer : List Level} {t : Token} {f : FunctionName} {p : Property}
      {v : Literal} : t.kind = .rightParen →
      Step ⟨l, outer, .callClosing f p v⟩ t ⟨l.push (.call f p v), outer, .continuation⟩

theorem expect_eq_ok_iff {s next next' : State} {kind : TokenKind} {t : Token} :
    s.expect kind t next = .ok next' ↔ t.kind = kind ∧ next = next' := by
  unfold State.expect
  split
  · next h => simp only [h, true_and, Except.ok.injEq]
  · next h => simp only [h, false_and, reduceCtorEq]

theorem step_of_readOperand {l : Level} {outer : List Level} {t : Token} {s : State}
    (h : State.readOperand ⟨l, outer, .operand⟩ t = .ok s) : Step ⟨l, outer, .operand⟩ t s := by
  unfold State.readOperand at h
  split at h
  · next hkind =>
    split at h
    · cases h
    · next hneg =>
      split at h
      · next hdepth =>
        cases h
        exact .not hkind (Bool.not_eq_true _ ▸ hneg) hdepth
      · cases h
  · next hkind =>
    split at h
    · next hdepth =>
      cases h
      exact .opening hkind hdepth
    · cases h
  · next hkind =>
    split at h
    · next f hf =>
      cases h
      exact .function (isFunction_iff.2 ⟨hkind, hf⟩)
    · cases h
  · next hkind =>
    cases h
    exact .property hkind
  · cases h

theorem step_of_readContinuation {l : Level} {outer : List Level} {t : Token} {s : State}
    (h : State.readContinuation ⟨l, outer, .continuation⟩ t = .ok s) :
    Step ⟨l, outer, .continuation⟩ t s := by
  unfold State.readContinuation at h
  split at h
  · next hkind =>
    cases h
    exact .and hkind
  · next hkind =>
    cases h
    exact .or hkind
  · next hkind houter =>
    obtain rfl := houter
    cases h
    exact .closing hkind
  · cases h

theorem step_of_read {s s' : State} {t : Token} (h : s.read t = .ok s') : Step s t s' := by
  obtain ⟨l, outer, place⟩ := s
  cases place with
  | operand => exact step_of_readOperand h
  | continuation => exact step_of_readContinuation h
  | operator p =>
    unfold State.read at h
    simp only at h
    split at h
    · next op hop =>
      cases h
      exact .operator (isOperator_iff.2 hop)
    · cases h
  | literal p op =>
    obtain ⟨v, hv, h⟩ := bind_eq_ok_iff.1 h
    cases h
    exact .literal hv
  | callLiteral f p =>
    obtain ⟨v, hv, h⟩ := bind_eq_ok_iff.1 h
    cases h
    exact .callLiteral hv
  | callOpening f =>
    obtain ⟨hkind, rfl⟩ := expect_eq_ok_iff.1 h
    exact .callOpening hkind
  | callProperty f =>
    obtain ⟨hkind, rfl⟩ := expect_eq_ok_iff.1 h
    exact .callProperty hkind
  | callComma f p =>
    obtain ⟨hkind, rfl⟩ := expect_eq_ok_iff.1 h
    exact .callComma hkind
  | callClosing f p v =>
    obtain ⟨hkind, rfl⟩ := expect_eq_ok_iff.1 h
    exact .callClosing hkind

theorem Step.read_eq {s s' : State} {t : Token} (h : Step s t s') : s.read t = .ok s' := by
  cases h with
  | not hkind hneg hdepth => simp [State.read, State.readOperand, hkind, hneg, hdepth]
  | opening hkind hdepth => simp [State.read, State.readOperand, hkind, hdepth]
  | property hkind => simp [State.read, State.readOperand, hkind]
  | function hf =>
    obtain ⟨hkind, hname⟩ := isFunction_iff.1 hf
    simp [State.read, State.readOperand, hkind, hname]
  | closing hkind => simp [State.read, State.readContinuation, State.complete, hkind]
  | and hkind => simp [State.read, State.readContinuation, hkind]
  | or hkind => simp [State.read, State.readContinuation, hkind]
  | operator hop => simp [State.read, isOperator_iff.1 hop]
  | literal hv | callLiteral hv => simp [State.read, hv, bind, Except.bind, State.complete]
  | callOpening hkind | callProperty hkind | callComma hkind | callClosing hkind =>
    exact expect_eq_ok_iff.2 ⟨hkind, rfl⟩

theorem read_eq_ok_iff {s s' : State} {t : Token} : s.read t = .ok s' ↔ Step s t s' :=
  ⟨step_of_read, Step.read_eq⟩

theorem Step.kind_ne_endOfInput {s s' : State} {t : Token} (h : Step s t s') :
    t.kind ≠ .endOfInput := by
  cases h with
  | operator hop =>
    cases hop with
    | comparison hkind => exact hkind ▸ nofun
    | function hf => exact hf.1 ▸ nofun
  | literal hv | callLiteral hv =>
    intro hkind
    simp [Parser.literal, hkind] at hv
  | function hf => exact hf.1 ▸ nofun
  | not hkind | opening hkind | closing hkind | and hkind | or hkind | property hkind
  | callOpening hkind | callProperty hkind | callComma hkind | callClosing hkind =>
    exact hkind ▸ nofun

inductive Steps : State → List Token → State → Prop where
  | nil {s : State} : Steps s [] s
  | cons {s s' s'' : State} {t : Token} {ts : List Token} : Step s t s' → Steps s' ts s'' →
      Steps s (t :: ts) s''

theorem Steps.append {s s' s'' : State} {ts us : List Token} (h : Steps s ts s')
    (h' : Steps s' us s'') : Steps s (ts ++ us) s'' := by
  induction h with
  | nil => exact h'
  | cons hstep _ ih => exact .cons hstep (ih h')

theorem Step.steps {s s' : State} {t : Token} (h : Step s t s') : Steps s [t] s' := .cons h .nil

theorem Steps.run_eq {s s' : State} {ts : List Token} (h : Steps s ts s') (stop : Nat)
    (rest : List Token) : s.run stop (ts ++ rest) = s'.run stop rest := by
  induction h with
  | nil => rfl
  | cons hstep _ ih =>
    rw [List.cons_append, State.run, if_neg hstep.kind_ne_endOfInput, read_eq_ok_iff.2 hstep]
    exact ih

theorem run_eq_ok_iff {s : State} {stop : Nat} {ts : List Token} {n : Node} {e : Token}
    (hts : ∀ t ∈ ts, t.kind ≠ .endOfInput) (he : e.kind = .endOfInput) :
    s.run stop (ts ++ [e]) = .ok n ↔ ∃ s', Steps s ts s' ∧ s'.result? = some n := by
  constructor
  · intro h
    induction ts generalizing s with
    | nil =>
      rw [List.nil_append, State.run, if_pos he, State.run.finish] at h
      split at h
      · next m hm => exact ⟨s, .nil, hm.trans (congrArg _ (Except.ok.inj h))⟩
      · cases h
    | cons t ts ih =>
      rw [List.cons_append, State.run, if_neg (hts t List.mem_cons_self)] at h
      split at h
      · next s' hread =>
        obtain ⟨s'', hsteps, hresult⟩ := ih (fun u hu => hts u (List.mem_cons_of_mem _ hu)) h
        exact ⟨s'', .cons (read_eq_ok_iff.1 hread) hsteps, hresult⟩
      · cases h
  · rintro ⟨s', hsteps, hresult⟩
    rw [hsteps.run_eq, State.run, if_pos he, State.run.finish, hresult]

end FilterQuery.Expression.Parser
