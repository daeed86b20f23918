import FilterQuery.Expression.Descent
import FilterQuery.Proofs.Fallible
import FilterQuery.Proofs.Expression.Nesting

/-! Recursive descent reads what the parser reads from state to state. From the place that each
function starts at, the states go on just as they do from behind what it has read. -/

namespace FilterQuery.Expression

namespace Cursor

open Expression.Parser

/-- What the states from `s` on make of the tokens at a place. -/
def run (c : Cursor) (s : State) : Except ParseError Node :=
  s.run c.stop (c.tokens.drop c.position)

/-! ## One token -/

section
variable {c : Cursor} {s s' : State} {e : Expected}

theorem rest_cases (c : Cursor) :
    c.tokens.drop c.position = [] ∧ c.peek = .atEnd c.stop ∨
      c.tokens.drop c.position = c.peek :: c.tokens.drop (c.position + 1) := by
  rcases Nat.lt_or_ge c.position c.tokens.length with hlt | hge
  · refine .inr ?_
    rw [peek, List.getElem?_eq_getElem hlt]
    exact List.drop_eq_getElem_cons hlt
  · refine .inl ⟨List.drop_eq_nil_of_le hge, ?_⟩
    rw [peek, List.getElem?_eq_none hge]
    rfl

theorem run_of_end (h : c.peek.kind = .endOfInput) : c.run s = State.run.finish s c.peek := by
  unfold run
  rcases c.rest_cases with ⟨hrest, hpeek⟩ | hrest
  · rw [hrest, hpeek, State.run]
  · rw [hrest, State.run, if_pos h]

theorem run_of_token (h : c.peek.kind ≠ .endOfInput) :
    c.run s = match s.read c.peek with
      | .ok s' => c.advance.run s'
      | .error e => .error (c.refuse e) := by
  have hrest := c.rest_cases.resolve_left fun hnil => h (by rw [hnil.2]; rfl)
  rw [run, hrest, State.run, if_neg h, advance, if_neg h]
  rfl

theorem read_end {t : Token} (h : t.kind = .endOfInput) : s.read t = .error s.expected := by
  obtain ⟨l, outer, place⟩ := s
  cases place with
  | operand => simp [State.read, State.readOperand, State.expected, h]
  | continuation => simp [State.read, State.readContinuation, h]
  | operator => simp [State.read, operator?, State.expected, h]
  | literal | callLiteral =>
    simp [State.read, Parser.literal, State.expected, h, bind, Except.bind]
  | callOpening | callProperty | callComma | callClosing =>
    simp [State.read, State.expect, State.expected, h]

theorem run_of_read (h : s.read c.peek = .ok s') : c.run s = c.advance.run s' := by
  have hkind : c.peek.kind ≠ .endOfInput := fun hend => by
    rw [read_end hend] at h
    cases h
  rw [run_of_token hkind, h]

theorem run_congr (hresult : s.result? = s'.result?) (hexpected : s.expected = s'.expected)
    (hread : s.read c.peek = s'.read c.peek) : c.run s = c.run s' := by
  by_cases hend : c.peek.kind = .endOfInput
  · rw [run_of_end hend, run_of_end hend, State.run.finish, State.run.finish, hresult, hexpected]
  · rw [run_of_token hend, run_of_token hend, hread]

theorem run_of_refused (hresult : s.result? = none) (h : s.read c.peek = .error e) :
    c.run s = .error (c.refuse e) := by
  by_cases hend : c.peek.kind = .endOfInput
  · rw [read_end hend] at h
    obtain rfl := Except.error.inj h
    rw [run_of_end hend, State.run.finish, hresult]
    rfl
  · rw [run_of_token hend, h]

end

/-! ## Terminals -/

section
variable {c : Cursor} {s : State} {l : Level} {outer : List Level} {f : FunctionName} {p : Property}

theorem run_expect {kind : TokenKind} (hkind : kind ≠ .endOfInput) {next : State}
    (hresult : s.result? = none) (hexpected : s.expected = .token kind)
    (hread : s.read c.peek = s.expect kind c.peek next) :
    c.run s = c.expect kind hkind >>= fun d => d.cursor.run next := by
  unfold State.expect at hread
  unfold expect
  split at hread
  · next h =>
    rw [dif_pos h, run_of_read hread]
    rfl
  · next h =>
    rw [dif_neg h, run_of_refused hresult hread, hexpected]
    rfl

theorem run_callProperty : c.run ⟨l, outer, .callProperty f⟩ =
    c.property >>= fun (p, d) => d.cursor.run ⟨l, outer, .callComma f p⟩ := by
  have hexpect : c.run ⟨l, outer, .callProperty f⟩ = c.expect .identifier >>=
      fun d => d.cursor.run ⟨l, outer, .callComma f ⟨c.peek.text⟩⟩ := run_expect _ rfl rfl rfl
  rw [hexpect, property, bind_assoc]
  rfl

theorem run_operator : c.run ⟨l, outer, .operator p⟩ =
    c.operator >>= fun (op, d) => d.cursor.run ⟨l, outer, .literal p op⟩ := by
  unfold operator
  split
  · next op hop =>
    have hread : State.read ⟨l, outer, .operator p⟩ c.peek = .ok ⟨l, outer, .literal p op⟩ := by
      simp only [State.read, hop]
    exact run_of_read hread
  · next hop =>
    have hread : State.read ⟨l, outer, .operator p⟩ c.peek = .error .operator := by
      simp only [State.read, hop]
    exact run_of_refused rfl hread

theorem run_literal {next : Literal → State} (hresult : s.result? = none)
    (hread : s.read c.peek = Parser.literal c.peek >>= fun v => .ok (next v)) :
    c.run s = c.literal >>= fun (v, d) => d.cursor.run (next v) := by
  unfold literal
  split
  · next v hv =>
    rw [hv] at hread
    exact run_of_read hread
  · next e he =>
    rw [he] at hread
    exact run_of_refused hresult hread

end

/-! ## Phrases that open nothing -/

section
variable {c : Cursor} {l : Level} {outer : List Level}

theorem run_comparison (h : c.peek.kind = .identifier) : c.run ⟨l, outer, .operand⟩ =
    c.comparison >>= fun (n, d) => d.cursor.run ⟨l.push n, outer, .continuation⟩ := by
  have hread : State.read ⟨l, outer, .operand⟩ c.peek =
      .ok ⟨l, outer, .operator ⟨c.peek.text⟩⟩ := by
    simp only [State.read, State.readOperand, h]
  have hproperty : c.property = .ok (⟨c.peek.text⟩, c.next h) := by
    rw [property, expect, dif_pos h]
    rfl
  rw [run_of_read hread, comparison, hproperty]
  refine run_operator.trans (Fallible.bind_eq_bind_bind ?_)
  rintro ⟨op, d⟩
  exact (run_literal rfl rfl).trans (Fallible.bind_eq_bind_bind fun _ => rfl)

theorem run_functionCall (h : c.peek.kind = .functionName) : c.run ⟨l, outer, .operand⟩ =
    c.functionCall h >>= fun (n, d) => d.cursor.run ⟨l.push n, outer, .continuation⟩ := by
  unfold functionCall
  split
  · next hf =>
    have hread : State.read ⟨l, outer, .operand⟩ c.peek = .error .functionName := by
      simp only [State.read, State.readOperand, h, hf]
    exact run_of_refused rfl hread
  · next f hf =>
    have hread : State.read ⟨l, outer, .operand⟩ c.peek = .ok ⟨l, outer, .callOpening f⟩ := by
      simp only [State.read, State.readOperand, h, hf]
    rw [run_of_read hread]
    refine (run_expect _ rfl rfl rfl).trans (Fallible.bind_eq_bind_bind fun d => ?_)
    refine run_callProperty.trans (Fallible.bind_eq_bind_bind ?_)
    rintro ⟨p, d⟩
    refine (run_expect _ rfl rfl rfl).trans (Fallible.bind_eq_bind_bind fun d => ?_)
    refine (run_literal rfl rfl).trans (Fallible.bind_eq_bind_bind ?_)
    rintro ⟨v, d⟩
    exact (run_expect _ rfl rfl rfl).trans (Fallible.bind_eq_bind_bind fun _ => rfl)

end

/-! ## The start of an operand -/

section
variable {c : Cursor} {s s' : State} {l : Level} {disjuncts conjuncts : List Node}
  {outer : List Level}

theorem run_of_deeper (hresult : s.result? = none) (hread : s.read c.peek =
      if c.depth < maxDepth then .ok s' else .error .shallowerNesting) :
    c.run s = if c.depth < maxDepth then c.deeper.advance.run s'
      else .error (c.refuse .shallowerNesting) := by
  by_cases hlt : c.depth < maxDepth
  · rw [if_pos hlt] at hread
    rw [if_pos hlt]
    exact run_of_read (c := c.deeper) hread
  · rw [if_neg hlt] at hread
    rw [if_neg hlt]
    exact run_of_refused hresult hread

theorem run_not (h : c.peek.kind = .not) (hdepth : openAbout outer = c.depth) :
    c.run ⟨⟨disjuncts, conjuncts, false⟩, outer, .operand⟩ =
      if c.depth < maxDepth then
        c.deeper.advance.run ⟨⟨disjuncts, conjuncts, true⟩, outer, .operand⟩
      else .error (c.refuse .shallowerNesting) := by
  refine run_of_deeper rfl ?_
  simp only [State.read, State.readOperand, h]
  rw [if_neg Bool.false_ne_true, depth_eq, ← hdepth]
  rfl

theorem run_leftParen (h : c.peek.kind = .leftParen)
    (hdepth : openAbout outer + l.negated.toNat = c.depth) :
    c.run ⟨l, outer, .operand⟩ =
      if c.depth < maxDepth then c.deeper.advance.run ⟨.empty, l :: outer, .operand⟩
      else .error (c.refuse .shallowerNesting) := by
  refine run_of_deeper rfl ?_
  simp only [State.read, State.readOperand, h]
  rw [depth_eq, hdepth]

theorem run_misplaced (hparen : c.peek.kind ≠ .leftParen) (hfunction : c.peek.kind ≠ .functionName)
    (hproperty : c.peek.kind ≠ .identifier) (hnot : c.peek.kind = .not → l.negated = true) :
    c.run ⟨l, outer, .operand⟩ = .error (c.refuse .expression) := by
  refine run_of_refused rfl ?_
  simp only [State.read, State.readOperand]
  split
  · next h => rw [if_pos (hnot h)]
  · contradiction
  · contradiction
  · contradiction
  · rfl

end

/-! ## Behind an expression -/

theorem peek_andRest {c : Cursor} {operands : List Node} {d e : Beyond c} {n : Node}
    (h : andRest c operands d = .ok (n, e)) : e.cursor.peek.kind ≠ .and := by
  rw [andRest] at h
  split at h
  · obtain ⟨⟨m, f⟩, -, hrest⟩ := Fallible.bind_eq_ok_iff.1 h
    exact peek_andRest hrest
  · next hpeek =>
    cases h
    exact hpeek
termination_by d.cursor.left
decreasing_by exact Nat.lt_trans f.left_lt (Beyond.left_lt _)

theorem peek_andExpression {c : Cursor} {n : Node} {d : Beyond c}
    (h : c.andExpression = .ok (n, d)) : d.cursor.peek.kind ≠ .and := by
  rw [andExpression] at h
  obtain ⟨⟨m, e⟩, -, hrest⟩ := Fallible.bind_eq_ok_iff.1 h
  exact peek_andRest hrest

theorem peek_orRest {c : Cursor} {operands : List Node} {d e : Beyond c} {n : Node}
    (h : orRest c operands d = .ok (n, e)) (hd : d.cursor.peek.kind ≠ .and) :
    e.cursor.peek.kind ≠ .and ∧ e.cursor.peek.kind ≠ .or := by
  rw [orRest] at h
  split at h
  · obtain ⟨⟨m, f⟩, hoperand, hrest⟩ := Fallible.bind_eq_ok_iff.1 h
    have hnext := peek_andExpression hoperand
    exact peek_orRest hrest hnext
  · next hpeek =>
    cases h
    exact ⟨hd, hpeek⟩
termination_by d.cursor.left
decreasing_by exact Nat.lt_trans f.left_lt (Beyond.left_lt _)

section
variable {c : Cursor} {n : Node} {d : Beyond c} {l m : Level} {outer : List Level}

theorem peek_orExpression (h : c.orExpression = .ok (n, d)) :
    d.cursor.peek.kind ≠ .and ∧ d.cursor.peek.kind ≠ .or := by
  rw [orExpression] at h
  obtain ⟨⟨m, e⟩, hoperand, hrest⟩ := Fallible.bind_eq_ok_iff.1 h
  exact peek_orRest hrest (peek_andExpression hoperand)

theorem run_and (h : c.peek.kind = .and) :
    c.run ⟨l, outer, .continuation⟩ = c.advance.run ⟨l, outer, .operand⟩ := by
  refine run_of_read ?_
  simp only [State.read, State.readContinuation, h]

theorem run_or (h : c.peek.kind = .or) :
    c.run ⟨l, outer, .continuation⟩ = c.advance.run ⟨l.nextDisjunct, outer, .operand⟩ := by
  refine run_of_read ?_
  simp only [State.read, State.readContinuation, h]

/-- Where no `and` follows, what is read of an expression matters only as a whole, and where an
`or` follows, what is read of its last conjunction does. -/
theorem run_continuation_congr (hand : c.peek.kind ≠ .and) (hnode : l.node = m.node)
    (hor : c.peek.kind = .or → l.nextDisjunct = m.nextDisjunct) :
    c.run ⟨l, outer, .continuation⟩ = c.run ⟨m, outer, .continuation⟩ := by
  refine run_congr ?_ rfl ?_
  · cases outer
    · exact congrArg some hnode
    · rfl
  · simp only [State.read, State.readContinuation]
    split
    · contradiction
    · next _ hpeek => rw [hor hpeek]
    · rw [hnode]
    · rfl

theorem run_behind (hand : c.peek.kind ≠ .and) (hor : c.peek.kind ≠ .or) :
    c.run ⟨l, [], .continuation⟩ =
      if c.peek.kind = .endOfInput then .ok l.node else .error (c.refuse .connectiveOrEnd) := by
  split
  · next hend => rw [run_of_end hend, State.run.finish]; rfl
  · next hend =>
    have hread : State.read ⟨l, [], .continuation⟩ c.peek = .error .connectiveOrEnd := by
      simp only [State.read, State.readContinuation]
      split
      · contradiction
      · contradiction
      · next heq => cases heq
      · rfl
    rw [run_of_token hend, hread]

theorem run_closing (hand : c.peek.kind ≠ .and) (hor : c.peek.kind ≠ .or) :
    c.run ⟨l, m :: outer, .continuation⟩ = c.expect .rightParen >>= fun d =>
      d.cursor.run ⟨m.push (.group l.node), outer, .continuation⟩ := by
  refine run_expect _ rfl rfl ?_
  simp only [State.read, State.readContinuation, State.expect]
  split
  · contradiction
  · contradiction
  · next hpeek heq =>
    cases heq
    rw [if_pos hpeek]
    rfl
  · next hpeek =>
    rw [if_neg fun hparen => hpeek m outer hparen rfl]

end

/-! ## Phrases that hold others -/

-- By the recursion of the functions, each with the level that it is called in: an expression starts
-- an empty level, a conjunction one without conjuncts, an operand one without a `not`. That as much
-- is open at the place as about the state lets both refuse the same token as too deep.
mutual

theorem run_orExpression (c : Cursor) {outer : List Level} (hdepth : openAbout outer = c.depth) :
    c.run ⟨.empty, outer, .operand⟩ = c.orExpression >>= fun (n, d) =>
      d.cursor.run ⟨⟨[], [n], false⟩, outer, .continuation⟩ := by
  rw [orExpression, bind_assoc]
  refine (run_andExpression c hdepth).trans (Fallible.bind_congr_ok fun (n, d) h => ?_)
  exact run_orRest c d [] n hdepth (peek_andExpression h)
termination_by (c.left, 5)
decreasing_by
  · exact Prod.Lex.right _ (by decide)
  · exact Prod.Lex.left _ _ d.left_lt

theorem run_orRest (c : Cursor) (d : Beyond c) (disjuncts : List Node) (n : Node)
    {outer : List Level} (hdepth : openAbout outer = c.depth) (hand : d.cursor.peek.kind ≠ .and) :
    d.cursor.run ⟨⟨disjuncts, [n], false⟩, outer, .continuation⟩ =
      c.orRest (n :: disjuncts).reverse d >>= fun (n, e) =>
        e.cursor.run ⟨⟨[], [n], false⟩, outer, .continuation⟩ := by
  rw [orRest]
  split
  · next hor =>
    rw [run_or hor, bind_assoc]
    let or := d.cursor.next hor
    refine (run_andExpression or.cursor ?_).trans (Fallible.bind_congr_ok fun (m, e) h => ?_)
    · rw [or.depth_eq, d.depth_eq]
      exact hdepth
    · have hnext := peek_andExpression h
      -- The new operand is the last of the list, and the first of the level.
      have hrest := run_orRest c ((d.trans or).trans e) (n :: disjuncts) m hdepth hnext
      rw [List.reverse_cons] at hrest
      exact hrest
  · next hor => exact run_continuation_congr hand rfl fun h => absurd h hor
termination_by (d.cursor.left, 4)
decreasing_by
  · exact Prod.Lex.left _ _ (Beyond.left_lt _)
  · exact Prod.Lex.left _ _ (Nat.lt_trans e.left_lt (Beyond.left_lt _))

theorem run_andExpression (c : Cursor) {disjuncts : List Node} {outer : List Level}
    (hdepth : openAbout outer = c.depth) :
    c.run ⟨⟨disjuncts, [], false⟩, outer, .operand⟩ = c.andExpression >>= fun (n, d) =>
      d.cursor.run ⟨⟨disjuncts, [n], false⟩, outer, .continuation⟩ := by
  rw [andExpression, bind_assoc]
  refine (run_notExpression c hdepth).trans (bind_congr fun (n, d) => ?_)
  exact run_andRest c d disjuncts [n] hdepth
termination_by (c.left, 3)
decreasing_by
  · exact Prod.Lex.right _ (by decide)
  · exact Prod.Lex.left _ _ d.left_lt

theorem run_andRest (c : Cursor) (d : Beyond c) (disjuncts conjuncts : List Node)
    {outer : List Level} (hdepth : openAbout outer = c.depth) :
    d.cursor.run ⟨⟨disjuncts, conjuncts, false⟩, outer, .continuation⟩ =
      c.andRest conjuncts.reverse d >>= fun (n, e) =>
        e.cursor.run ⟨⟨disjuncts, [n], false⟩, outer, .continuation⟩ := by
  rw [andRest]
  split
  · next hand =>
    rw [run_and hand, bind_assoc]
    let and := d.cursor.next hand
    refine (run_notExpression and.cursor ?_).trans (bind_congr fun (m, e) => ?_)
    · rw [and.depth_eq, d.depth_eq]
      exact hdepth
    · have hrest := run_andRest c ((d.trans and).trans e) disjuncts (m :: conjuncts) hdepth
      rw [List.reverse_cons] at hrest
      exact hrest
  · next hand => exact run_continuation_congr hand rfl fun _ => rfl
termination_by (d.cursor.left, 2)
decreasing_by
  · exact Prod.Lex.left _ _ (Beyond.left_lt _)
  · exact Prod.Lex.left _ _ (Nat.lt_trans e.left_lt (Beyond.left_lt _))

theorem run_notExpression (c : Cursor) {disjuncts conjuncts : List Node} {outer : List Level}
    (hdepth : openAbout outer = c.depth) :
    c.run ⟨⟨disjuncts, conjuncts, false⟩, outer, .operand⟩ = c.notExpression >>= fun (n, d) =>
      d.cursor.run ⟨⟨disjuncts, n :: conjuncts, false⟩, outer, .continuation⟩ := by
  rw [notExpression]
  split
  · next hnot =>
    rw [run_not hnot hdepth]
    by_cases hlt : c.depth < maxDepth
    · rw [if_pos hlt, if_pos hlt, bind_assoc]
      let not := c.deeper.next hnot
      refine (run_primary not.cursor ?_ fun _ => rfl).trans (bind_congr fun _ => rfl)
      rw [not.depth_eq]
      exact congrArg (· + 1) hdepth
    · rw [if_neg hlt, if_neg hlt]
      rfl
  · next hnot => exact run_primary c hdepth fun h => absurd h hnot
termination_by (c.left, 1)
decreasing_by
  · exact Prod.Lex.right _ (by decide)
  · exact Prod.Lex.left _ _ (Beyond.left_lt _)

theorem run_primary (c : Cursor) {l : Level} {outer : List Level}
    (hdepth : openAbout outer + l.negated.toNat = c.depth)
    (hnot : c.peek.kind = .not → l.negated = true) :
    c.run ⟨l, outer, .operand⟩ = c.primary >>= fun (n, d) =>
      d.cursor.run ⟨l.push n, outer, .continuation⟩ := by
  rw [primary]
  split
  · next hpeek =>
    rw [run_leftParen hpeek hdepth]
    by_cases hlt : c.depth < maxDepth
    · rw [if_pos hlt, if_pos hlt, bind_assoc]
      let opening := c.deeper.next hpeek
      refine (run_orExpression opening.cursor ?_).trans
        (Fallible.bind_congr_ok fun (n, d) h => ?_)
      · rw [opening.depth_eq, openAbout_cons, hdepth]
        rfl
      · obtain ⟨hand, hor⟩ := peek_orExpression h
        exact (run_closing hand hor).trans (Fallible.bind_eq_bind_bind fun _ => rfl)
    · rw [if_neg hlt, if_neg hlt]
      rfl
  · next hpeek => exact run_functionCall hpeek
  · next hpeek => exact run_comparison hpeek
  · next hparen hfunction hproperty => exact run_misplaced hparen hfunction hproperty hnot
termination_by (c.left, 0)
decreasing_by exact Prod.Lex.left _ _ (Beyond.left_lt _)

end

end Cursor

/-- Reading by descent from phrase to phrase is reading from state to state. -/
theorem descend_eq_parseTokens (ts : List Token) : descend ts = parseTokens ts := by
  symm
  refine (Cursor.run_orExpression ⟨ts, 0, 0⟩ rfl).trans (Fallible.bind_congr_ok fun (n, d) h => ?_)
  obtain ⟨hand, hor⟩ := Cursor.peek_orExpression h
  exact Cursor.run_behind hand hor

end FilterQuery.Expression
