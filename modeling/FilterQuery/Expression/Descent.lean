import FilterQuery.Expression.Parser

/-! Filter trees read by recursive descent, with one function for each phrase of the grammar. A
place in the list of tokens moves on as they are read, and never behind an end of input. -/

namespace FilterQuery.Expression

/-- A place in a list of tokens, and how many `not`s and parentheses are open there. -/
structure Cursor where
  tokens : List Token
  position : Nat := 0
  depth : Nat := 0

namespace Cursor

def stop (c : Cursor) : Nat := c.tokens.getLast?.elim 0 Token.stop

/-- The token at the place; behind the last one there is an end of input. -/
def peek (c : Cursor) : Token := c.tokens[c.position]?.getD (.atEnd c.stop)

def left (c : Cursor) : Nat := c.tokens.length - c.position

def advance (c : Cursor) : Cursor :=
  if c.peek.kind = .endOfInput then c else { c with position := c.position + 1 }

theorem left_advance_lt {c : Cursor} (h : c.peek.kind ≠ .endOfInput) : c.advance.left < c.left := by
  have hposition : c.position < c.tokens.length := by
    refine Nat.lt_of_not_le fun hle => ?_
    rw [peek, List.getElem?_eq_none hle] at h
    exact h rfl
  rw [advance, if_neg h, left, left]
  exact Nat.sub_lt_sub_left hposition (Nat.lt_succ_self _)

theorem depth_advance (c : Cursor) : c.advance.depth = c.depth := by
  unfold advance
  split <;> rfl

def deeper (c : Cursor) : Cursor := { c with depth := c.depth + 1 }

/-- A place further on, with as much open. -/
structure Beyond (c : Cursor) where
  cursor : Cursor
  left_lt : cursor.left < c.left
  depth_eq : cursor.depth = c.depth

namespace Beyond

variable {c : Cursor}

def trans (d : Beyond c) (e : Beyond d.cursor) : Beyond c :=
  ⟨e.cursor, Nat.lt_trans e.left_lt d.left_lt, e.depth_eq.trans d.depth_eq⟩

def leave (d : Beyond c.deeper) : Beyond c :=
  ⟨{ d.cursor with depth := d.cursor.depth - 1 }, d.left_lt, by rw [d.depth_eq]; rfl⟩

end Beyond

abbrev Reading (c : Cursor) (α : Type) := α × Beyond c

def refuse (c : Cursor) (e : Expected) : ParseError := ⟨e, c.peek⟩

def next (c : Cursor) {kind : TokenKind} (h : c.peek.kind = kind)
    (hkind : kind ≠ .endOfInput := by decide) : Beyond c :=
  ⟨c.advance, left_advance_lt (h ▸ hkind), c.depth_advance⟩

def expect (c : Cursor) (kind : TokenKind) (hkind : kind ≠ .endOfInput := by decide) :
    Except ParseError (Beyond c) :=
  if h : c.peek.kind = kind then .ok (c.next h hkind) else .error (c.refuse (.token kind))

def property (c : Cursor) : Except ParseError (Reading c Property) := do
  let d ← c.expect .identifier
  .ok (⟨c.peek.text⟩, d)

theorem kind_ne_of_operator? {t : Token} {op : Operator} (h : Parser.operator? t = some op) :
    t.kind ≠ .endOfInput := by
  intro hkind
  rw [Parser.operator?, hkind] at h
  cases h

def operator (c : Cursor) : Except ParseError (Reading c Operator) :=
  match h : Parser.operator? c.peek with
  | some op => .ok (op, c.next rfl (kind_ne_of_operator? h))
  | none => .error (c.refuse .operator)

theorem kind_ne_of_literal {t : Token} {l : Literal} (h : Parser.literal t = .ok l) :
    t.kind ≠ .endOfInput := by
  intro hkind
  rw [Parser.literal, hkind] at h
  cases h

def literal (c : Cursor) : Except ParseError (Reading c Literal) :=
  match h : Parser.literal c.peek with
  | .ok l => .ok (l, c.next rfl (kind_ne_of_literal h))
  | .error e => .error (c.refuse e)

def comparison (c : Cursor) : Except ParseError (Reading c Node) := do
  let (p, d) ← c.property
  let (op, e) ← d.cursor.operator
  let (l, f) ← e.cursor.literal
  .ok (.comparison p op l, (d.trans e).trans f)

def functionCall (c : Cursor) (h : c.peek.kind = .functionName) :
    Except ParseError (Reading c Node) :=
  match FunctionName.ofText? c.peek.text with
  | none => .error (c.refuse .functionName)
  | some f => do
    let name := c.next h
    let opening ← name.cursor.expect .leftParen
    let (p, property) ← opening.cursor.property
    let comma ← property.cursor.expect .comma
    let (l, literal) ← comma.cursor.literal
    let closing ← literal.cursor.expect .rightParen
    .ok (.call f p l,
      ((((name.trans opening).trans property).trans comma).trans literal).trans closing)

mutual

def orExpression (c : Cursor) : Except ParseError (Reading c Node) := do
  let (n, d) ← andExpression c
  orRest c [n] d
termination_by (c.left, 5)
decreasing_by
  · exact Prod.Lex.right _ (by decide)
  · exact Prod.Lex.left _ _ d.left_lt

/-- The rest of a disjunction with these operands, which is from `d` on. -/
def orRest (c : Cursor) (operands : List Node) (d : Beyond c) :
    Except ParseError (Reading c Node) :=
  if h : d.cursor.peek.kind = .or then do
    let or := d.cursor.next h
    let (n, e) ← andExpression or.cursor
    orRest c (operands ++ [n]) ((d.trans or).trans e)
  else .ok (.chain .or operands, d)
termination_by (d.cursor.left, 4)
decreasing_by
  · exact Prod.Lex.left _ _ or.left_lt
  · exact Prod.Lex.left _ _ (Nat.lt_trans e.left_lt or.left_lt)

def andExpression (c : Cursor) : Except ParseError (Reading c Node) := do
  let (n, d) ← notExpression c
  andRest c [n] d
termination_by (c.left, 3)
decreasing_by
  · exact Prod.Lex.right _ (by decide)
  · exact Prod.Lex.left _ _ d.left_lt

def andRest (c : Cursor) (operands : List Node) (d : Beyond c) :
    Except ParseError (Reading c Node) :=
  if h : d.cursor.peek.kind = .and then do
    let and := d.cursor.next h
    let (n, e) ← notExpression and.cursor
    andRest c (operands ++ [n]) ((d.trans and).trans e)
  else .ok (.chain .and operands, d)
termination_by (d.cursor.left, 2)
decreasing_by
  · exact Prod.Lex.left _ _ and.left_lt
  · exact Prod.Lex.left _ _ (Nat.lt_trans e.left_lt and.left_lt)

def notExpression (c : Cursor) : Except ParseError (Reading c Node) :=
  if h : c.peek.kind = .not then
    if c.depth < Parser.maxDepth then do
      let not := c.deeper.next h
      let (n, d) ← primary not.cursor
      .ok (.logical .not [n], (not.trans d).leave)
    else .error (c.refuse .shallowerNesting)
  else primary c
termination_by (c.left, 1)
decreasing_by
  · exact Prod.Lex.left _ _ not.left_lt
  · exact Prod.Lex.right _ (by decide)

def primary (c : Cursor) : Except ParseError (Reading c Node) :=
  match h : c.peek.kind with
  | .leftParen =>
    if c.depth < Parser.maxDepth then do
      let opening := c.deeper.next h
      let (n, d) ← orExpression opening.cursor
      let closing ← d.cursor.expect .rightParen
      .ok (.group n, ((opening.trans d).trans closing).leave)
    else .error (c.refuse .shallowerNesting)
  | .functionName => functionCall c h
  | .identifier => comparison c
  | _ => .error (c.refuse .expression)
termination_by (c.left, 0)
decreasing_by exact Prod.Lex.left _ _ opening.left_lt

end

end Cursor

/-- The tree of a list of tokens, all of which up to the first end of input it has to take. -/
def descend (ts : List Token) : Except ParseError Node := do
  let (n, d) ← Cursor.orExpression ⟨ts, 0, 0⟩
  if d.cursor.peek.kind = .endOfInput then .ok n
  else .error (d.cursor.refuse .connectiveOrEnd)

end FilterQuery.Expression
