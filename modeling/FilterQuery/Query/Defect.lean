import FilterQuery.Expression.Literal
import FilterQuery.Expression.Operator
import FilterQuery.Expression.Property

/-! What can keep a filter tree from having a query. -/

namespace FilterQuery.Query

open Expression

inductive Defect where
  | bareProperty (p : Property)
  | bareLiteral (l : Literal)
  | noOperand (c : Connective)
  | operandCount (count : Nat)
  | arguments (f : FunctionName)
  | nullOperand (op : Operator)
  | unorderedBound (op : Operator) (bound : Literal)
  deriving DecidableEq

namespace Defect

def operator : Defect → String
  | bareProperty _ => "property"
  | bareLiteral _ => "literal"
  | noOperand c => c.spelling
  | operandCount _ => "not"
  | arguments f => f.spelling
  | nullOperand op => op.spelling
  | unorderedBound op _ => op.spelling

def describe : Defect → String
  | bareProperty p => "'" ++ p.name ++ "' is not a condition on its own"
  | bareLiteral l => l.print ++ " is not a condition on its own"
  | noOperand _ => "expects at least one operand"
  | operandCount n => "expects exactly one operand, got " ++ toString n
  | arguments _ => "expects (property, literal) arguments"
  | nullOperand _ => "null can only be compared with eq or ne"
  | unorderedBound _ l => "range bounds must be strings or numbers, got " ++ l.print

end Defect

end FilterQuery.Query
