import FilterQuery.Text.Blank

/-! Comparison operators, the functions that stand for some of them, and connectives. -/

namespace FilterQuery.Expression

inductive Operator where
  | eq
  | ne
  | gt
  | ge
  | lt
  | le
  | contains
  | startsWith
  | endsWith
  | like
  | notLike
  | oneOf
  | noneOf
  deriving DecidableEq, Repr

namespace Operator

/-- Every spelling, words in lower case, with the one to print before its alias. -/
def spellings : List (String × Operator) :=
  [("eq", eq), ("=", eq), ("ne", ne), ("!=", ne), ("gt", gt), (">", gt), ("ge", ge), (">=", ge),
   ("lt", lt), ("<", lt), ("le", le), ("<=", le), ("contains", contains),
   ("startswith", startsWith), ("endswith", endsWith), ("~", like), ("!~", notLike),
   ("?=", oneOf), ("?!=", noneOf)]

def spelling : Operator → String
  | eq => "eq"
  | ne => "ne"
  | gt => "gt"
  | ge => "ge"
  | lt => "lt"
  | le => "le"
  | contains => "contains"
  | startsWith => "startswith"
  | endsWith => "endswith"
  | like => "~"
  | notLike => "!~"
  | oneOf => "?="
  | noneOf => "?!="

/-- The symbol of an operator, which some have beside a word. -/
def symbol? : Operator → Option String
  | eq => some "="
  | ne => some "!="
  | gt => some ">"
  | ge => some ">="
  | lt => some "<"
  | le => some "<="
  | like => some "~"
  | notLike => some "!~"
  | oneOf => some "?="
  | noneOf => some "?!="
  | contains | startsWith | endsWith => none

theorem mem_spellings_iff {text : String} {op : Operator} :
    (text, op) ∈ spellings ↔ text = op.spelling ∨ op.symbol? = some text := by
  cases op <;> simp [spellings, spelling, symbol?, eq_comm]

def ofText? (text : String) : Option Operator := spellings.lookup (Text.foldCase text)

theorem ofText?_spelling (op : Operator) : ofText? op.spelling = some op := by
  cases op <;> decide

end Operator

/-- A function of a property and a literal, another form of the operator of its name. -/
inductive FunctionName where
  | contains
  | startsWith
  | endsWith
  deriving DecidableEq, Repr

namespace FunctionName

def operator : FunctionName → Operator
  | contains => .contains
  | startsWith => .startsWith
  | endsWith => .endsWith

def spelling (f : FunctionName) : String := f.operator.spelling

def ofText? (text : String) : Option FunctionName :=
  [contains, startsWith, endsWith].find? (·.spelling = Text.foldCase text)

theorem ofText?_spelling (f : FunctionName) : ofText? f.spelling = some f := by
  cases f <;> decide

end FunctionName

inductive Connective where
  | and
  | or
  | not
  deriving DecidableEq, Repr

def Connective.spelling : Connective → String
  | and => "and"
  | or => "or"
  | not => "not"

end FilterQuery.Expression
