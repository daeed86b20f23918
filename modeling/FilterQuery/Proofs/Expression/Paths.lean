import FilterQuery.Proofs.Expression.Parsed

/-! Paths through filter trees, from the root down to a leaf. Between two groups of a canonical tree
there are at most a disjunction and a conjunction, so what bounds the groups bounds the path. -/

namespace FilterQuery.Expression.Node

def children : Node → List Node
  | .property _ | .literal _ | .comparison .. => []
  | .logical _ ns | .function _ ns => ns
  | .group n => [n]

/-- The nodes that are passed on a way from a node down to a leaf, both included. -/
inductive Path : Node → List Node → Prop where
  | leaf {n : Node} : n.children = [] → Path n [n]
  | down {n m : Node} {path : List Node} : m ∈ n.children → Path m path → Path n (n :: path)

def isOpening : Node → Bool
  | .logical .not _ | .group _ => true
  | _ => false

theorem nesting_le_nestingAll {n : Node} {ns : List Node} (h : n ∈ ns) :
    n.nesting ≤ nestingAll ns :=
  (nestingAll_add_le_iff (k := 0).1 (Nat.le_refl _)).2 n h

theorem nesting_opening_le (n : Node) : (if n.isOpening then 1 else 0) ≤ n.nesting := by
  cases n with
  | property | literal | comparison | function => exact Nat.zero_le _
  | logical c ns => cases c <;> simp [nesting, isOpening]
  | group n => simp [isOpening]

theorem nesting_child_le {n m : Node} (h : m ∈ n.children) :
    m.nesting + (if n.isOpening then 1 else 0) ≤ n.nesting := by
  cases n with
  | property | literal | comparison => cases h
  | logical c ns =>
    have hm : m.nesting ≤ nestingAll ns := nesting_le_nestingAll h
    cases c <;> simpa [nesting, isOpening] using hm
  | function f ns =>
    have hm : m.nesting ≤ nestingAll ns := nesting_le_nestingAll h
    simpa [nesting, isOpening] using hm
  | group n =>
    obtain rfl := List.mem_singleton.1 h
    simp [isOpening]

/-- How many nodes of a canonical tree can follow one another, from one of this kind on, before the
next that counts for the depth. -/
def room : Node → Nat
  | .logical .or _ => 4
  | .logical .and _ => 3
  | _ => 2

theorem room_bounds (n : Node) : 2 ≤ n.room ∧ n.room ≤ 4 := by
  unfold room
  split <;> decide

theorem room_le_of_not_or {n : Node} (h : n.isOr = false) : n.room ≤ 3 := by
  unfold room
  split
  · cases h
  · exact Nat.le_refl 3
  · decide

theorem room_of_not_chain {n : Node} (h : n.isChain = false) : n.room = 2 := by
  unfold room
  split
  · cases h
  · cases h
  · rfl

namespace Path

variable {n : Node} {path : List Node}

theorem eq_singleton (h : n.Path path) (hn : n.children = []) : path = [n] := by
  cases h with
  | leaf => rfl
  | down hm => exact absurd hm (hn ▸ List.not_mem_nil)

theorem countP_le (h : n.Path path) : path.countP isOpening ≤ n.nesting := by
  induction h with
  | @leaf n _ =>
    rw [List.countP_singleton]
    exact nesting_opening_le n
  | @down n m path hm _ ih =>
    rw [List.countP_cons]
    exact Nat.le_trans (Nat.add_le_add_right ih _) (nesting_child_le hm)

/-- The induction is on the path: each step down from a chain leads to a node with less room, and
from any other condition to one that counts. -/
theorem length_le (h : n.Path path) (hn : n.Canonical) :
    path.length ≤ 3 * path.countP isOpening + n.room := by
  induction h with
  | @leaf n _ =>
    have hroom := n.room_bounds
    rw [List.length_singleton]
    omega
  | @down n m path hm hpath ih =>
    rw [List.countP_cons, List.length_cons]
    cases hn with
    | comparison => cases hm
    | function =>
      have hleaf : m.children = [] := by
        rcases List.mem_cons.1 hm with rfl | hm
        · rfl
        · rw [List.mem_singleton.1 hm]
          rfl
      rw [hpath.eq_singleton hleaf]
      exact Nat.le_add_left 2 _
    | group hn =>
      obtain rfl := List.mem_singleton.1 hm
      have hpath := ih hn
      have hroom := m.room_bounds
      show path.length + 1 ≤ 3 * (path.countP isOpening + 1) + 2
      omega
    | not _ hn =>
      obtain rfl := List.mem_singleton.1 hm
      have hpath := ih hn
      have hroom := m.room_bounds
      show path.length + 1 ≤ 3 * (path.countP isOpening + 1) + 2
      omega
    | and _ hchain hn =>
      have hpath := ih (hn m hm)
      rw [room_of_not_chain (hchain m hm)] at hpath
      exact Nat.succ_le_succ hpath
    | or _ hor hn =>
      have hpath := ih (hn m hm)
      have hroom := room_le_of_not_or (hor m hm)
      show path.length + 1 ≤ 3 * path.countP isOpening + 4
      omega

end Path

theorem exists_path : ∀ n : Node, ∃ path, n.Path path
  | .property _ | .literal _ | .comparison .. | .logical _ [] | .function _ [] => ⟨_, .leaf rfl⟩
  | .logical _ (m :: _) | .function _ (m :: _) =>
    let ⟨_, h⟩ := exists_path m
    ⟨_, .down List.mem_cons_self h⟩
  | .group m =>
    let ⟨_, h⟩ := exists_path m
    ⟨_, .down (List.mem_singleton_self m) h⟩

def Shallow (k : Nat) (n : Node) : Prop := ∀ path, n.Path path → path.length ≤ k

theorem not_shallow_zero (n : Node) : ¬n.Shallow 0 := by
  intro h
  obtain ⟨path, hpath⟩ := n.exists_path
  have hnil := List.length_eq_zero_iff.1 (Nat.le_zero.1 (h path hpath))
  cases hpath <;> cases hnil

theorem Shallow.child {k : Nat} {n m : Node} (h : n.Shallow (k + 1)) (hm : m ∈ n.children) :
    m.Shallow k :=
  fun path hpath => Nat.le_of_succ_le_succ (h (n :: path) (.down hm hpath))

end FilterQuery.Expression.Node
