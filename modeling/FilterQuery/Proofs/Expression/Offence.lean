import Mathlib
import FilterQuery.Expression.Basic
import FilterQuery.Proofs.Expression.Scanning
import FilterQuery.Proofs.Expression.Transition

/-! Where a filter goes wrong that is refused: whatever the parser has read can be completed, so the
token that an error lies at is the first one with which no filter begins. -/

namespace FilterQuery.Expression

namespace Parser

open Lexeme (Spelled)

/-! ## Every state can be completed -/

namespace Completion

def property : Token := ⟨.identifier, "a", 0⟩

def equals : Token := ⟨.comparisonOperator, "=", 0⟩

def null : Token := ⟨.nullLiteral, "null", 0⟩

def opening : Token := ⟨.leftParen, "(", 0⟩

def comma : Token := ⟨.comma, ",", 0⟩

def closing : Token := ⟨.rightParen, ")", 0⟩

def ofPlace : Place → List Token
  | .operand => [property, equals, null]
  | .operator _ => [equals, null]
  | .literal _ _ => [null]
  | .callOpening _ => [opening, property, comma, null, closing]
  | .callProperty _ => [property, comma, null, closing]
  | .callComma _ _ => [comma, null, closing]
  | .callLiteral _ _ => [null, closing]
  | .callClosing _ _ _ => [closing]
  | .continuation => []

def ofState (s : State) : List Token := ofPlace s.place ++ List.replicate s.outer.length closing

theorem spelled_of_mem {t : Token}
    (h : t ∈ [property, equals, null, opening, comma, closing]) :
    Spelled t.kind t.text.toList := by
  simp only [List.mem_cons, List.not_mem_nil, or_false] at h
  rcases h with rfl | rfl | rfl | rfl | rfl | rfl
  · exact Lexeme.spelled_word rfl rfl (by decide)
  · exact Lexeme.spelled_of_mem_symbols (by decide)
  · exact Lexeme.spelled_word rfl rfl (by decide)
  · exact .leftParen
  · exact .comma
  · exact .rightParen

theorem spelled_ofState (s : State) : ∀ t ∈ ofState s, Spelled t.kind t.text.toList := by
  have hplace : ofPlace s.place ⊆ [property, equals, null, opening, comma, closing] := by
    cases s.place <;> simp [ofPlace]
  intro t ht
  apply spelled_of_mem
  rcases List.mem_append.1 ht with h | h
  · exact hplace h
  · rw [List.eq_of_mem_replicate h]
    decide

theorem steps_ofPlace (l : Level) (outer : List Level) (place : Place) :
    ∃ m, Steps ⟨l, outer, place⟩ (ofPlace place) ⟨m, outer, .continuation⟩ := by
  have hequals : Grammar.IsOperator equals .eq := .comparison rfl (by decide)
  have hnull : Parser.literal null = .ok .null := rfl
  cases place with
  | operand =>
    exact ⟨_, .cons (.property rfl) (.cons (.operator hequals) (Step.literal hnull).steps)⟩
  | operator p => exact ⟨_, .cons (.operator hequals) (Step.literal hnull).steps⟩
  | literal p op => exact ⟨_, (Step.literal hnull).steps⟩
  | callOpening f =>
    exact ⟨_, .cons (.callOpening rfl) <| .cons (.callProperty rfl) <| .cons (.callComma rfl) <|
      .cons (.callLiteral hnull) (Step.callClosing rfl).steps⟩
  | callProperty f =>
    exact ⟨_, .cons (.callProperty rfl) <| .cons (.callComma rfl) <| .cons (.callLiteral hnull)
      (Step.callClosing rfl).steps⟩
  | callComma f p =>
    exact ⟨_, .cons (.callComma rfl) <| .cons (.callLiteral hnull) (Step.callClosing rfl).steps⟩
  | callLiteral f p => exact ⟨_, .cons (.callLiteral hnull) (Step.callClosing rfl).steps⟩
  | callClosing f p v => exact ⟨_, (Step.callClosing rfl).steps⟩
  | continuation => exact ⟨l, .nil⟩

theorem steps_closing (l : Level) (outer : List Level) : ∃ m, Steps ⟨l, outer, .continuation⟩
    (List.replicate outer.length closing) ⟨m, [], .continuation⟩ := by
  induction outer generalizing l with
  | nil => exact ⟨l, .nil⟩
  | cons m outer ih =>
    obtain ⟨k, hsteps⟩ := ih (m.push (.group l.node))
    exact ⟨k, .cons (.closing rfl) hsteps⟩

theorem steps_ofState (s : State) :
    ∃ s' n, Steps s (ofState s) s' ∧ s'.result? = some n := by
  obtain ⟨l, outer, place⟩ := s
  obtain ⟨m, hplace⟩ := steps_ofPlace l outer place
  obtain ⟨k, hclosing⟩ := steps_closing m outer
  exact ⟨_, k.node, hplace.append hclosing, rfl⟩

end Completion

/-! ## Errors -/

/-- That the parser takes `ts` for a filter, with an end of input behind them. -/
def Accepted (ts : List Token) : Prop := ∃ stop n, parseTokens (ts ++ [.atEnd stop]) = .ok n

section
variable {s s' : State} {t e : Token} {ts us vs : List Token} {stop : Nat}

theorem accepted_of_steps (hsteps : Steps .start ts s) {n : Node} (hresult : s.result? = some n) :
    Accepted ts := by
  refine ⟨0, n, ?_⟩
  have hend : (Token.atEnd 0).kind = .endOfInput := rfl
  rw [parseTokens, hsteps.run_eq, State.run, if_pos hend, State.run.finish, hresult]

theorem not_accepted_of_read (hsteps : Steps .start us s) {x : Expected}
    (hread : s.read t = .error x)
    (ht : t.kind ≠ .endOfInput) : ¬Accepted (us ++ t :: vs) := by
  rintro ⟨stop, n, h⟩
  rw [parseTokens, List.append_assoc, hsteps.run_eq, List.cons_append, State.run, if_neg ht,
    hread] at h
  cases h

theorem not_accepted_of_result (hsteps : Steps .start ts s) (hresult : s.result? = none) :
    ¬Accepted ts := by
  rintro ⟨stop, n, h⟩
  have hend : (Token.atEnd stop).kind = .endOfInput := rfl
  rw [parseTokens, hsteps.run_eq, State.run, if_pos hend, State.run.finish, hresult] at h
  cases h

theorem found_of_run_eq_error (hts : ∀ t ∈ ts, t.kind ≠ .endOfInput) (he : e.kind = .endOfInput)
    {error : ParseError} (h : s.run stop (ts ++ [e]) = .error error) :
    ∃ us s', Steps s us s' ∧
      ((∃ vs x, ts = us ++ error.found :: vs ∧ s'.read error.found = .error x) ∨
        (ts = us ∧ error.found = e ∧ s'.result? = none)) := by
  -- By induction on the tokens: those in front of the error are read one after the other.
  induction ts generalizing s with
  | nil =>
    rw [List.nil_append, State.run, if_pos he, State.run.finish] at h
    split at h
    · cases h
    · next hnone =>
      obtain rfl := Except.error.inj h
      exact ⟨[], s, .nil, .inr ⟨rfl, rfl, hnone⟩⟩
  | cons t ts ih =>
    rw [List.cons_append, State.run, if_neg (hts t List.mem_cons_self)] at h
    split at h
    · next s' hread =>
      obtain ⟨us, s'', hsteps, hcause⟩ := ih (fun u hu => hts u (List.mem_cons_of_mem _ hu)) h
      refine ⟨t :: us, s'', .cons (read_eq_ok_iff.1 hread) hsteps, hcause.imp ?_ ?_⟩
      · rintro ⟨vs, x, rfl, hx⟩
        exact ⟨vs, x, rfl, hx⟩
      · rintro ⟨rfl, hfound, hnone⟩
        exact ⟨rfl, hfound, hnone⟩
    · next x hread =>
      obtain rfl := Except.error.inj h
      exact ⟨[], s, .nil, .inl ⟨ts, x, rfl, hread⟩⟩

end

/-- That filters begin with the first `k` of the tokens `ts`, and none with more of them. Where `k`
is all of them they are no filter themselves. -/
structure ViableUpTo (ts : List Token) (k : Nat) : Prop where
  le_length : k ≤ ts.length
  completed : ∃ us, (∀ u ∈ us, Spelled u.kind u.text.toList) ∧ Accepted (ts.take k ++ us)
  misplaced : k < ts.length → ∀ us, ¬Accepted (ts.take (k + 1) ++ us)
  unfinished : k = ts.length → ¬Accepted ts

theorem ViableUpTo.le {ts : List Token} {j k : Nat} (h : ViableUpTo ts j) (h' : ViableUpTo ts k) :
    k ≤ j := by
  refine Nat.le_of_not_lt fun hlt => ?_
  obtain ⟨us, -, haccepted⟩ := h'.completed
  have hbegin : ts.take (j + 1) = (ts.take k).take (j + 1) := by
    rw [List.take_take, Nat.min_eq_left hlt]
  refine h.misplaced (Nat.lt_of_lt_of_le hlt h'.le_length) ((ts.take k).drop (j + 1) ++ us) ?_
  rwa [hbegin, ← List.append_assoc, List.take_append_drop]

theorem ViableUpTo.unique {ts : List Token} {j k : Nat} (h : ViableUpTo ts j)
    (h' : ViableUpTo ts k) : j = k := Nat.le_antisymm (h'.le h) (h.le h')

theorem viableUpTo_of_error {ts : List Token} {stop : Nat} {error : ParseError}
    (hts : ∀ t ∈ ts, t.kind ≠ .endOfInput) (h : parseTokens (ts ++ [.atEnd stop]) = .error error) :
    ∃ k, ViableUpTo ts k ∧ (ts ++ [.atEnd stop])[k]? = some error.found := by
  obtain ⟨us, s, hsteps, hcause⟩ := found_of_run_eq_error hts rfl h
  obtain ⟨s', n, hcompletion, hresult⟩ := Completion.steps_ofState s
  have hcompleted : Accepted (us ++ Completion.ofState s) :=
    accepted_of_steps (hsteps.append hcompletion) hresult
  have hspelled := Completion.spelled_ofState s
  rcases hcause with ⟨vs, x, rfl, hread⟩ | ⟨rfl, hfound, hnone⟩
  · refine ⟨us.length, ⟨?_, ⟨_, hspelled, ?_⟩, fun _ ws => ?_, fun hlength => ?_⟩, ?_⟩
    · rw [List.length_append]
      exact Nat.le_add_right _ _
    · rwa [List.take_left]
    · rw [List.append_cons, List.take_left' (by simp), List.append_assoc]
      refine not_accepted_of_read hsteps hread (hts _ ?_)
      exact List.mem_append_right _ List.mem_cons_self
    · rw [List.length_append, List.length_cons] at hlength
      omega
    · rw [List.append_assoc, List.getElem?_append_right (Nat.le_refl _), Nat.sub_self]
      rfl
  · refine ⟨ts.length, ⟨Nat.le_refl _, ⟨_, hspelled, ?_⟩, fun hlt => ?_, fun _ => ?_⟩, ?_⟩
    · rwa [List.take_length]
    · exact absurd hlt (Nat.lt_irrefl _)
    · exact not_accepted_of_result hsteps hnone
    · rw [List.getElem?_append_right (Nat.le_refl _), Nat.sub_self, hfound]
      rfl

end Parser

open Fallible Expression.Parser

/-- A filter that is refused is refused at the first token with which no filter begins, or at its end
if filters do begin with all of its tokens. There is no other such place. -/
theorem refused_at_first_misplaced_token {input : String} {ts : List Token} {error : ParseError}
    (htokens : tokenize input = .ok (ts ++ [.atEnd input.utf8ByteSize]))
    (h : parse input = .error (.parse error)) :
    ∃! k, ViableUpTo ts k ∧ ∃ t, (ts ++ [.atEnd input.utf8ByteSize])[k]? = some t ∧
      error.offset = t.offset ∧ error.found.describe = t.describe := by
  have hspelled := Lexeme.spelled_of_mem_tokens htokens
  have herror : parseTokens (ts ++ [.atEnd input.utf8ByteSize]) = .error error := by
    rw [parse, bind_eq_error_iff] at h
    rcases h with h | ⟨all, hall, h⟩
    · obtain ⟨_, -, h⟩ := mapError_eq_error_iff.1 h
      cases h
    · obtain rfl := Except.ok.inj (htokens.symm.trans (mapError_eq_ok_iff.1 hall))
      obtain ⟨_, herror, h⟩ := mapError_eq_error_iff.1 h
      rwa [← FilterError.parse.inj h]
  obtain ⟨k, hk, hfound⟩ := viableUpTo_of_error
    (fun t ht => Lexeme.kind_ne_endOfInput_of_spelled (hspelled t ht)) herror
  exact ⟨k, ⟨hk, error.found, hfound, rfl, rfl⟩, fun j hj => hj.1.unique hk⟩

/-- The parenthesis would be right behind an operand, and what follows it is not looked at. -/
theorem refused_at_parenthesis_behind_and :
    let ts : List Token := [⟨.leftParen, "(", 0⟩, ⟨.identifier, "a", 1⟩,
      ⟨.comparisonOperator, "=", 3⟩, ⟨.numberLiteral, "1", 5⟩, ⟨.and, "and", 7⟩,
      ⟨.rightParen, ")", 10⟩, ⟨.or, "or", 12⟩]
    let error : ParseError := ⟨.expression, ⟨.rightParen, ")", 10⟩⟩
    tokenize "(a = 1 and) or" = .ok (ts ++ [.atEnd "(a = 1 and) or".utf8ByteSize]) ∧
      parse "(a = 1 and) or" = .error (.parse error) ∧
      ∃! k, ViableUpTo ts k ∧ ∃ t, (ts ++ [.atEnd "(a = 1 and) or".utf8ByteSize])[k]? = some t ∧
        error.offset = t.offset ∧ error.found.describe = t.describe := by
  intro ts error
  have htokens : tokenize "(a = 1 and) or" =
      .ok (ts ++ [.atEnd "(a = 1 and) or".utf8ByteSize]) := by
    cbv
  have herror : parse "(a = 1 and) or" = .error (.parse error) := by cbv
  exact ⟨htokens, herror, refused_at_first_misplaced_token htokens herror⟩

end FilterQuery.Expression
