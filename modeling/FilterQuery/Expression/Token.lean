import FilterQuery.Text.Blank
import FilterQuery.Text.Bytes

/-! Tokens of the filter language, and the words that error messages have for them. -/

namespace FilterQuery.Expression

inductive TokenKind where
  | stringLiteral
  | numberLiteral
  | booleanLiteral
  | nullLiteral
  | identifier
  | comparisonOperator
  | and
  | or
  | not
  | functionName
  | leftParen
  | rightParen
  | comma
  | endOfInput
  deriving DecidableEq, Repr

namespace TokenKind

def name : TokenKind → String
  | stringLiteral => "StringLiteral"
  | numberLiteral => "NumberLiteral"
  | booleanLiteral => "BooleanLiteral"
  | nullLiteral => "NullLiteral"
  | identifier => "Identifier"
  | comparisonOperator => "ComparisonOperator"
  | and => "And"
  | or => "Or"
  | not => "Not"
  | functionName => "FunctionName"
  | leftParen => "LeftParen"
  | rightParen => "RightParen"
  | comma => "Comma"
  | endOfInput => "Eof"

def all : List TokenKind :=
  [stringLiteral, numberLiteral, booleanLiteral, nullLiteral, identifier, comparisonOperator,
   and, or, not, functionName, leftParen, rightParen, comma, endOfInput]

def ofName? (name : String) : Option TokenKind := all.find? (·.name = name)

def describe : TokenKind → String
  | stringLiteral => "string literal"
  | numberLiteral => "number literal"
  | booleanLiteral => "boolean literal"
  | nullLiteral => "null"
  | identifier => "property name"
  | comparisonOperator => "comparison operator"
  | and => "'and'"
  | or => "'or'"
  | not => "'not'"
  | functionName => "function name"
  | leftParen => "'('"
  | rightParen => "')'"
  | comma => "','"
  | endOfInput => "end of input"

def isLiteral : TokenKind → Bool
  | stringLiteral | numberLiteral | booleanLiteral | nullLiteral => true
  | _ => false

def showsText : TokenKind → Bool
  | stringLiteral | numberLiteral | booleanLiteral | identifier | comparisonOperator
  | functionName => true
  | _ => false

end TokenKind

structure Token where
  kind : TokenKind
  text : String
  offset : Nat
  deriving DecidableEq, Repr

namespace Token

def stop (t : Token) : Nat := t.offset + t.text.utf8ByteSize

def atEnd (offset : Nat) : Token := ⟨.endOfInput, "", offset⟩

/-- A text that starts with a quote carries its own. -/
def quote (text : String) : String :=
  if text.toList.head? = some '\'' then text else "'" ++ text ++ "'"

def describe (t : Token) : String :=
  if t.kind.showsText then t.kind.describe ++ " " ++ quote t.text else t.kind.describe

def display (t : Token) : String :=
  t.kind.name ++ "(" ++ t.text ++ ")@" ++ toString t.offset

end Token

end FilterQuery.Expression
