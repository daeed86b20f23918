import FilterQuery.Expression.Parser
import FilterQuery.Expression.Printer

/-! Filters read from text, and what is said of text that is none. -/

namespace FilterQuery.Expression

def LexReason.describe : LexReason → String
  | unterminatedString => "unterminated string literal"
  | unexpectedCharacter c => "unexpected character '" ++ c.toString ++ "'"

def LexError.message (e : LexError) : String :=
  "filter lex error at offset " ++ toString e.offset ++ ": " ++ e.reason.describe

namespace ParseError

def offset (e : ParseError) : Nat := e.found.offset

def message (e : ParseError) : String :=
  "filter parse error at offset " ++ toString e.offset ++ ": expected " ++ e.expected.describe
    ++ ", found " ++ e.found.describe

end ParseError

inductive FilterError where
  | lex (error : LexError)
  | parse (error : ParseError)
  deriving DecidableEq, Repr

namespace FilterError

def offset : FilterError → Nat
  | lex e => e.offset
  | parse e => e.offset

def message : FilterError → String
  | lex e => e.message
  | parse e => e.message

end FilterError

def parse (input : String) : Except FilterError Node := do
  let tokens ← (tokenize input).mapError .lex
  (parseTokens tokens).mapError .parse

end FilterQuery.Expression
