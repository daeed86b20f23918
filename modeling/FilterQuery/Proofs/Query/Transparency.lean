import FilterQuery.Proofs.Query.FirstDefect

/-! Groups and calls are other spellings of what they hold: a tree without them has the same query,
and where it has none, the same defect. -/

namespace FilterQuery

open Expression

namespace Expression.Node

mutual

/-- The tree with what is inside in place of every group, and the comparison in place of every call
on a property and a literal. The arguments of any other call stay as they are. -/
def plain : Node → Node
  | .property p => .property p
  | .literal l => .literal l
  | .comparison p op l => .comparison p op l
  | .logical c ns => .logical c (plainAll ns)
  | .function f [.property p, .literal l] => .comparison p f.operator l
  | .function f ns => .function f ns
  | .group n => n.plain

def plainAll : List Node → List Node
  | [] => []
  | n :: ns => n.plain :: plainAll ns

end

inductive Plain : Node → Prop where
  | property (p : Property) : Plain (.property p)
  | literal (l : Literal) : Plain (.literal l)
  | comparison (p : Property) (op : Operator) (l : Literal) : Plain (.comparison p op l)
  | logical {c : Connective} {ns : List Node} : (∀ n ∈ ns, Plain n) → Plain (.logical c ns)
  | function {f : FunctionName} {ns : List Node} : (∀ p l, ns ≠ [.property p, .literal l]) →
      Plain (.function f ns)

theorem plain_function {ns : List Node} (h : ∀ p l, ns ≠ [.property p, .literal l])
    (f : FunctionName) : (Node.function f ns).plain = .function f ns := by
  rw [plain]
  exact h

theorem plainAll_eq_map (ns : List Node) : plainAll ns = ns.map plain := by
  induction ns with
  | nil => rfl
  | cons n ns ih => rw [plainAll, ih, List.map_cons]

end Expression.Node

namespace Query

open Search

mutual

theorem plain_plain : ∀ n : Node, n.plain.Plain
  | .property p => .property p
  | .literal l => .literal l
  | .comparison p op l => .comparison p op l
  | .logical c ns => .logical (plain_of_mem_plainAll ns)
  | .function f ns => by
    rcases arguments_cases ns with ⟨p, l, rfl⟩ | hother
    · exact .comparison p f.operator l
    · rw [Node.plain_function hother]
      exact .function hother
  | .group n => plain_plain n

theorem plain_of_mem_plainAll : ∀ ns : List Node, ∀ n ∈ Node.plainAll ns, n.Plain
  | [] => nofun
  | n :: ns => List.forall_mem_cons.2 ⟨plain_plain n, plain_of_mem_plainAll ns⟩

end

theorem plain_eq_self {n : Node} (h : n.Plain) : n.plain = n := by
  induction h with
  | property | literal | comparison => rfl
  | @logical c ns _ ih =>
    have hall : Node.plainAll ns = ns := by
      rw [Node.plainAll_eq_map, List.map_congr_left ih, List.map_id']
    rw [Node.plain, hall]
  | function hother => exact Node.plain_function hother _

theorem plain_eq_self_iff {n : Node} : n.plain = n ↔ n.Plain :=
  ⟨fun h => h ▸ plain_plain n, plain_eq_self⟩

mutual

theorem compile_plain : ∀ n : Node, compile n.plain = compile n
  | .property _ | .literal _ | .comparison .. => rfl
  | .logical c ns => by rw [Node.plain, compile, compile, compileAll_plainAll ns]
  | .function f ns => by
    rcases arguments_cases ns with ⟨p, l, rfl⟩ | hother
    · rfl
    · rw [Node.plain_function hother]
  | .group n => by rw [Node.plain, compile, compile_plain n]

theorem compileAll_plainAll : ∀ ns : List Node, compileAll (Node.plainAll ns) = compileAll ns
  | [] => rfl
  | n :: ns => by
    rw [Node.plainAll, compileAll, compileAll, compile_plain n, compileAll_plainAll ns]

end

/-- A tree and its plain form, in which no group and no call on a property and a literal is left,
have the same query, or the same defect with the same operator and words. -/
theorem groups_and_calls_are_transparent (n : Node) :
    n.plain.Plain ∧ (n.plain = n ↔ n.Plain) ∧ compile n.plain = compile n ∧
      compileFilter (some n.plain) = compileFilter (some n) := by
  have hcompile := compile_plain n
  have hfilter : compileFilter (some n.plain) = compileFilter (some n) := by
    simp only [compileFilter, hcompile]
  exact ⟨plain_plain n, plain_eq_self_iff, hcompile, hfilter⟩

example :
    let call := Node.function .contains [.group (.property ⟨"a"⟩), .literal .null]
    let n := Node.group (.logical .not [.group (.call .endsWith ⟨"b"⟩ .null), call])
    n.plain = .logical .not [.comparison ⟨"b"⟩ .endsWith .null, call] := rfl

end Query

end FilterQuery
