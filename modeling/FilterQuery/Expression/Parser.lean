import FilterQuery.Expression.Lexeme
import FilterQuery.Expression.Node

/-! Filter trees read from tokens. A state holds what has been read of every open level, and one
token at a time leads from state to state, so the token at hand is where an error lies.

    expression = conjunction { "or" conjunction }
    conjunction = operand { "and" operand }
    operand = [ "not" ] primary
    primary = "(" expression ")" | function "(" property "," literal ")"
            | property operator literal -/

namespace FilterQuery.Expression

inductive Expected where
  | expression
  | shallowerNesting
  | functionName
  | operator
  | literal
  | representableNumber
  | connectiveOrEnd
  | token (kind : TokenKind)
  deriving DecidableEq, Repr

def Expected.describe : Expected → String
  | expression => "an expression"
  | shallowerNesting => "shallower nesting"
  | functionName => "function name"
  | operator => "comparison operator"
  | literal => "literal"
  | representableNumber => "a number within the 64-bit integer range"
  | connectiveOrEnd => "'and', 'or' or end of input"
  | token kind => kind.describe

structure ParseError where
  expected : Expected
  found : Token
  deriving DecidableEq, Repr

namespace Parser

def unquote (text : String) : String :=
  let cs := match text.toList with
    | '\'' :: r => if r.getLast? = some '\'' then r.dropLast else '\'' :: r
    | cs => cs
  .ofList (singleQuotes cs)

def number? (text : String) : Option Number :=
  if text.toList.contains '.' then (Decimal.Binary64.ofText? text.toList).map .float
  else (Decimal.readInt? text.toList).bind Number.ofInt?

def literal (t : Token) : Except Expected Literal :=
  match t.kind with
  | .stringLiteral => .ok (.string (unquote t.text))
  | .numberLiteral =>
    match number? t.text with
    | some n => .ok (.number n)
    | none => .error .representableNumber
  | .booleanLiteral => .ok (.boolean (Text.foldCase t.text = "true"))
  | .nullLiteral => .ok .null
  | _ => .error .literal

def operator? (t : Token) : Option Operator :=
  match t.kind with
  | .comparisonOperator => Operator.ofText? t.text
  | .functionName => (FunctionName.ofText? t.text).map (·.operator)
  | _ => none

/-- Most `not`s and parentheses about expressions that may be open at once. -/
def maxDepth : Nat := 128

/-- What has been read of one expression, the latest first: its finished conjunctions, the operands
of the current one, and whether a `not` waits for the operand that comes next. -/
structure Level where
  disjuncts : List Node
  conjuncts : List Node
  negated : Bool

namespace Level

def empty : Level := ⟨[], [], false⟩

def push (l : Level) (n : Node) : Level :=
  let operand := if l.negated then .logical .not [n] else n
  { l with conjuncts := operand :: l.conjuncts, negated := false }

def nextDisjunct (l : Level) : Level :=
  { l with disjuncts := .chain .and l.conjuncts.reverse :: l.disjuncts, conjuncts := [] }

def node (l : Level) : Node := .chain .or l.nextDisjunct.disjuncts.reverse

end Level

/-- What the token at hand has to be. -/
inductive Place where
  | operand
  | callOpening (f : FunctionName)
  | callProperty (f : FunctionName)
  | callComma (f : FunctionName) (p : Property)
  | callLiteral (f : FunctionName) (p : Property)
  | callClosing (f : FunctionName) (p : Property) (l : Literal)
  | operator (p : Property)
  | literal (p : Property) (op : Operator)
  | continuation

/-- The innermost open level, those about it from the inside out, and the place in the former. -/
structure State where
  level : Level
  outer : List Level
  place : Place

namespace State

def start : State := ⟨.empty, [], .operand⟩

def depth (s : State) : Nat := s.outer.length + (s.level :: s.outer).countP (·.negated)

def complete (s : State) (n : Node) : State :=
  { s with level := s.level.push n, place := .continuation }

def expected (s : State) : Expected :=
  match s.place with
  | .operand => .expression
  | .callOpening _ => .token .leftParen
  | .callProperty _ => .token .identifier
  | .callComma .. => .token .comma
  | .callLiteral .. | .literal .. => .literal
  | .callClosing .. => .token .rightParen
  | .operator _ => .operator
  | .continuation => if s.outer.isEmpty then .connectiveOrEnd else .token .rightParen

def readOperand (s : State) (t : Token) : Except Expected State :=
  match t.kind with
  | .not =>
    if s.level.negated then .error .expression
    else if s.depth < maxDepth then .ok { s with level := { s.level with negated := true } }
    else .error .shallowerNesting
  | .leftParen =>
    if s.depth < maxDepth then .ok ⟨.empty, s.level :: s.outer, .operand⟩
    else .error .shallowerNesting
  | .functionName =>
    match FunctionName.ofText? t.text with
    | some f => .ok { s with place := .callOpening f }
    | none => .error .functionName
  | .identifier => .ok { s with place := .operator ⟨t.text⟩ }
  | _ => .error .expression

def readContinuation (s : State) (t : Token) : Except Expected State :=
  match t.kind, s.outer with
  | .and, _ => .ok { s with place := .operand }
  | .or, _ => .ok { s with level := s.level.nextDisjunct, place := .operand }
  | .rightParen, level :: outer => .ok (complete ⟨level, outer, .operand⟩ (.group s.level.node))
  | _, _ => .error s.expected

def expect (s : State) (kind : TokenKind) (t : Token) (next : State) : Except Expected State :=
  if t.kind = kind then .ok next else .error s.expected

def read (s : State) (t : Token) : Except Expected State :=
  match s.place with
  | .operand => s.readOperand t
  | .continuation => s.readContinuation t
  | .operator p =>
    match operator? t with
    | some op => .ok { s with place := .literal p op }
    | none => .error .operator
  | .literal p op => do .ok (s.complete (.comparison p op (← Parser.literal t)))
  | .callOpening f => s.expect .leftParen t { s with place := .callProperty f }
  | .callProperty f => s.expect .identifier t { s with place := .callComma f ⟨t.text⟩ }
  | .callComma f p => s.expect .comma t { s with place := .callLiteral f p }
  | .callLiteral f p => do .ok { s with place := .callClosing f p (← Parser.literal t) }
  | .callClosing f p l => s.expect .rightParen t (s.complete (.call f p l))

def result? (s : State) : Option Node :=
  match s.place, s.outer with
  | .continuation, [] => some s.level.node
  | _, _ => none

/-- Reads tokens up to the first end of input. Where there is none, the end is at offset `stop`. -/
def run (stop : Nat) (s : State) : List Token → Except ParseError Node
  | [] => finish (.atEnd stop)
  | t :: ts =>
    if t.kind = .endOfInput then finish t
    else
      match s.read t with
      | .ok s => run stop s ts
      | .error e => .error ⟨e, t⟩
where
  finish (t : Token) : Except ParseError Node :=
    match s.result? with
    | some n => .ok n
    | none => .error ⟨s.expected, t⟩

end State

end Parser

def parseTokens (ts : List Token) : Except ParseError Node :=
  Parser.State.start.run (ts.getLast?.elim 0 Token.stop) ts

end FilterQuery.Expression
