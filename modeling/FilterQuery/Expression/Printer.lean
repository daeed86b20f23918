import FilterQuery.Expression.Node

/-! The canonical text of a filter tree. -/

namespace FilterQuery.Expression.Node

mutual

def chars : Node → List Char
  | .property p => p.name.toList
  | .literal l => l.chars
  | .comparison p op l => p.name.toList ++ ' ' :: op.spelling.toList ++ ' ' :: l.chars
  | .logical .not ns => [' '].intercalate ("not".toList :: texts ns)
  | .logical c ns => (' ' :: c.spelling.toList ++ [' ']).intercalate (texts ns)
  | .function f ns => f.spelling.toList ++ '(' :: ", ".toList.intercalate (texts ns) ++ [')']
  | .group n => '(' :: n.chars ++ [')']

def texts : List Node → List (List Char)
  | [] => []
  | n :: ns => n.chars :: texts ns

end

theorem texts_eq_map (ns : List Node) : texts ns = ns.map chars := by
  induction ns with
  | nil => rfl
  | cons n ns ih => simp [texts, ih]

def print (n : Node) : String := .ofList n.chars

end FilterQuery.Expression.Node
