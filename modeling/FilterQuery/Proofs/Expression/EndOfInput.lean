import FilterQuery.Proofs.Expression.Descent

/-! Where a list of tokens ends for the parser: at its first end of input, or else behind its last
token, just as if an end of input were there. -/

namespace FilterQuery.Expression

namespace Parser.State

variable {stop stop' : Nat}

theorem run_cons_congr {ts us : List Token} {t : Token}
    (h : t.kind ≠ .endOfInput → ∀ s : State, s.run stop ts = s.run stop' us) (s : State) :
    s.run stop (t :: ts) = s.run stop' (t :: us) := by
  rw [run, run]
  by_cases ht : t.kind = .endOfInput
  · rw [if_pos ht, if_pos ht]
  · rw [if_neg ht, if_neg ht]
    cases s.read t with
    | error e => rfl
    | ok s' => exact h ht s'

theorem run_append_end {e : Token} (he : e.kind = .endOfInput) (front rest : List Token)
    (s : State) : s.run stop (front ++ e :: rest) = s.run stop' (front ++ [e]) := by
  induction front generalizing s with
  | nil => exact run_cons_congr (fun hne => absurd he hne) s
  | cons t front ih => exact run_cons_congr (fun _ => ih) s

theorem run_append_atEnd (ts : List Token) (s : State) :
    s.run stop' (ts ++ [.atEnd stop]) = s.run stop ts := by
  induction ts generalizing s with
  | nil => rfl
  | cons t ts ih => exact run_cons_congr (fun _ => ih) s

end Parser.State

/-- Recursive descent and the states of the parser read the same from every list of tokens. An end
of input at the offset behind the last token makes no difference to the tree or to the error, and
nothing behind the first end of input does. -/
theorem tokens_end_at_first_end_of_input :
    (∀ ts : List Token, descend ts = parseTokens ts) ∧
    (∀ ts : List Token,
      parseTokens (ts ++ [.atEnd (ts.getLast?.elim 0 Token.stop)]) = parseTokens ts) ∧
    ∀ (front : List Token) (e : Token) (rest : List Token), e.kind = .endOfInput →
      parseTokens (front ++ e :: rest) = parseTokens (front ++ [e]) :=
  ⟨descend_eq_parseTokens, fun ts => Parser.State.run_append_atEnd ts _,
    fun front _ rest he => Parser.State.run_append_end he front rest _⟩

/-- An end of input may have a text and come in the middle, and offsets may run backwards. -/
theorem tokens_end_at_first_end_of_input_amid_others :
    let front : List Token :=
      [⟨.leftParen, "", 9⟩, ⟨.identifier, "x y", 7⟩, ⟨.functionName, "CONTAINS", 3⟩]
    let e : Token := ⟨.endOfInput, "or", 5⟩
    e.kind = .endOfInput ∧
      parseTokens front = .error ⟨.literal, .atEnd 11⟩ ∧
      descend (front ++ [.atEnd 11]) = .error ⟨.literal, .atEnd 11⟩ ∧
      descend (front ++ [e, ⟨.nullLiteral, "null", 0⟩, ⟨.rightParen, ")", 4⟩]) =
        .error ⟨.literal, e⟩ := by
  intro front e
  obtain ⟨hdescend, hopen, hcut⟩ := tokens_end_at_first_end_of_input
  have hfront : parseTokens front = .error ⟨.literal, .atEnd 11⟩ := by rfl
  have hend : parseTokens (front ++ [e]) = .error ⟨.literal, e⟩ := by rfl
  refine ⟨rfl, hfront, ?_, ?_⟩
  · exact (hdescend _).trans ((hopen front).trans hfront)
  · exact (hdescend _).trans ((hcut front e _ rfl).trans hend)

end FilterQuery.Expression
