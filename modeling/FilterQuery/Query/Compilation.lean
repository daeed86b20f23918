import FilterQuery.Expression.Node
import FilterQuery.Query.Clause
import FilterQuery.Query.Defect
import FilterQuery.Query.Pattern

/-! The query of a filter tree. -/

namespace FilterQuery.Query

open Expression

def range (field : String) (op : Operator) (bound : Bound) : Literal → Except Defect Clause
  | .string s => .ok (.range field bound (.string s))
  | .number n => .ok (.range field bound (.number n))
  | l => .error (.unorderedBound op l)

def listed (text : String) : List String := (Text.entries text.toList).map .ofList

/-- A comparison of one field with a value that is not null, whose text is `text`. -/
def leaf (field : String) (op : Operator) (value : Literal) (text : String) :
    Except Defect Clause :=
  match op with
  | .eq => .ok (.term field value)
  | .ne => .ok (.no (.term field value))
  | .gt => range field op .above value
  | .ge => range field op .atLeast value
  | .lt => range field op .below value
  | .le => range field op .atMost value
  | .contains => .ok (.wildcard field (Pattern.containing text) false)
  | .startsWith => .ok (.startsWith field text)
  | .endsWith => .ok (.wildcard field (Pattern.ending text) false)
  | .like => .ok (.wildcard field (Pattern.containing text) true)
  | .notLike => .ok (.no (.wildcard field (Pattern.containing text) true))
  | .oneOf => .ok (.terms field (listed text))
  | .noneOf => .ok (.no (.terms field (listed text)))

/-- Null stands for absence, of the whole path. -/
def nullCheck (field : String) : Operator → Except Defect Clause
  | .eq => .ok (.no (.present field))
  | .ne => .ok (.present field)
  | op => .error (.nullOperand op)

def within (path : Option String) (query : Clause) : Clause :=
  match path with
  | some path => .nested path query
  | none => query

def comparison (p : Property) (op : Operator) (value : Literal) : Except Defect Clause :=
  match value.text? with
  | none => nullCheck p.name op
  | some text => (leaf p.name op value text).map (within p.nestedRoot?)

def connect (c : Connective) (queries : List Clause) : Except Defect Clause :=
  match c, queries with
  | .not, [q] => .ok (.no q)
  | .not, qs => .error (.operandCount qs.length)
  | .and, q :: qs => .ok (.every (q :: qs))
  | .or, q :: qs => .ok (.some (q :: qs))
  | c, [] => .error (.noOperand c)

mutual

/-- The query of a tree. Operands are compiled in order, each before its connective. -/
def compile : Node → Except Defect Clause
  | .property p => .error (.bareProperty p)
  | .literal l => .error (.bareLiteral l)
  | .comparison p op l => comparison p op l
  | .logical c ns => do connect c (← compileAll ns)
  | .function f [.property p, .literal l] => comparison p f.operator l
  | .function f _ => .error (.arguments f)
  | .group n => compile n

def compileAll : List Node → Except Defect (List Clause)
  | [] => .ok []
  | n :: ns => do
    let q ← compile n
    let qs ← compileAll ns
    .ok (q :: qs)

end

end FilterQuery.Query
