import FilterQuery.Expression.Literal
import FilterQuery.Expression.Operator
import FilterQuery.Expression.Property

/-! Filter expressions as trees. -/

namespace FilterQuery.Expression

inductive Node where
  | property (property : Property)
  | literal (value : Literal)
  | comparison (property : Property) (operator : Operator) (value : Literal)
  | logical (connective : Connective) (operands : List Node)
  | function (name : FunctionName) (arguments : List Node)
  | group (inner : Node)

namespace Node

def call (f : FunctionName) (p : Property) (l : Literal) : Node :=
  .function f [.property p, .literal l]

/-- A single operand stands for itself. -/
def chain (c : Connective) : List Node → Node
  | [n] => n
  | ns => .logical c ns

theorem chain_of_two_le {c : Connective} {ns : List Node} (h : 2 ≤ ns.length) :
    chain c ns = .logical c ns := by
  unfold chain
  split
  · exact absurd h (Nat.lt_irrefl 1)
  · rfl

mutual

def same : Node → Node → Bool
  | .property p, .property q => p = q
  | .literal l, .literal m => l = m
  | .comparison p o l, .comparison q u m => p = q && o = u && l = m
  | .logical c ns, .logical d ms => c = d && sameAll ns ms
  | .function f ns, .function g ms => f = g && sameAll ns ms
  | .group n, .group m => same n m
  | _, _ => false

def sameAll : List Node → List Node → Bool
  | [], [] => true
  | n :: ns, m :: ms => same n m && sameAll ns ms
  | _, _ => false

end

mutual

theorem same_iff : ∀ n m : Node, same n m ↔ n = m
  | .property _, m => by cases m <;> simp [same]
  | .literal _, m => by cases m <;> simp [same]
  | .comparison .., m => by cases m <;> simp [same, and_assoc]
  | .logical _ ns, m => by cases m <;> simp [same, sameAll_iff ns]
  | .function _ ns, m => by cases m <;> simp [same, sameAll_iff ns]
  | .group n, m => by cases m <;> simp [same, same_iff n]

theorem sameAll_iff : ∀ ns ms : List Node, sameAll ns ms ↔ ns = ms
  | [], ms => by cases ms <;> simp [sameAll]
  | n :: ns, ms => by cases ms <;> simp [sameAll, same_iff n, sameAll_iff ns]

end

instance : DecidableEq Node := fun n m => decidable_of_iff _ (same_iff n m)

end Node

end FilterQuery.Expression
