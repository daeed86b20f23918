import FilterQuery.Expression.Printer
import FilterQuery.Proofs.Expression.Paths
import FilterQuery.Query.Compilation

/-! How many calls are open at once when a tree is printed or compiled: as many as its longest path
has nodes, which for a filter that has been read is bounded whatever the length of its text. -/

namespace FilterQuery

theorem mapM_eq_some_map {α β : Type} {f : α → Option β} {g : α → β} {l : List α}
    (h : ∀ a ∈ l, f a = some (g a)) : l.mapM f = some (l.map g) := by
  induction l with
  | nil => rfl
  | cons a l ih =>
    obtain ⟨ha, hl⟩ := List.forall_mem_cons.1 h
    rw [List.mapM_cons, ha, ih hl]
    rfl

namespace Expression.Node

/-- The text of a tree, printed with no more than `k` calls open at once, if that is enough. -/
def charsWithin : Nat → Node → Option (List Char)
  | 0, _ => none
  | k + 1, n =>
    match n with
    | .property p => some p.name.toList
    | .literal l => some l.chars
    | .comparison p op l => some (p.name.toList ++ ' ' :: op.spelling.toList ++ ' ' :: l.chars)
    | .logical .not ns => do
      let texts ← ns.mapM (charsWithin k)
      some ([' '].intercalate ("not".toList :: texts))
    | .logical c ns => do
      let texts ← ns.mapM (charsWithin k)
      some ((' ' :: c.spelling.toList ++ [' ']).intercalate texts)
    | .function f ns => do
      let texts ← ns.mapM (charsWithin k)
      some (f.spelling.toList ++ '(' :: ", ".toList.intercalate texts ++ [')'])
    | .group n => do
      let text ← charsWithin k n
      some ('(' :: text ++ [')'])

theorem charsWithin_eq {k : Nat} {n : Node} (h : n.Shallow k) : charsWithin k n = some n.chars := by
  induction k generalizing n with
  | zero => exact absurd h n.not_shallow_zero
  | succ k ih =>
    have texts (ns : List Node) (hns : ns = n.children) :
        ns.mapM (charsWithin k) = some (texts ns) := by
      rw [texts_eq_map]
      exact mapM_eq_some_map fun m hm => ih (h.child (hns ▸ hm))
    cases n with
    | property | literal | comparison => simp only [charsWithin, chars]
    | logical c ns =>
      cases c <;>
        simp only [charsWithin, chars, texts ns rfl, Option.bind_eq_bind, Option.bind_some]
    | function f ns =>
      simp only [charsWithin, chars, texts ns rfl, Option.bind_eq_bind, Option.bind_some]
    | group m =>
      simp only [charsWithin, chars, ih (h.child (List.mem_singleton_self m)), Option.bind_eq_bind,
        Option.bind_some]

end Expression.Node

namespace Query

open Expression Node

/-- The query of a tree, compiled with no more than `k` calls open at once, if that is enough. -/
def compileWithin : Nat → Node → Option (Except Defect Clause)
  | 0, _ => none
  | k + 1, n =>
    match n with
    | .property p => some (.error (.bareProperty p))
    | .literal l => some (.error (.bareLiteral l))
    | .comparison p op l => some (comparison p op l)
    | .logical c ns => do
      let results ← ns.mapM (compileWithin k)
      some (results.mapM id >>= connect c)
    | .function f [.property p, .literal l] => some (comparison p f.operator l)
    | .function f _ => some (.error (.arguments f))
    | .group n => compileWithin k n

theorem compileAll_eq_mapM (ns : List Node) : compileAll ns = ns.mapM compile := by
  induction ns with
  | nil => rfl
  | cons n ns ih =>
    rw [compileAll, List.mapM_cons, ih]
    rfl

theorem compileWithin_eq {k : Nat} {n : Node} (h : n.Shallow k) :
    compileWithin k n = some (compile n) := by
  induction k generalizing n with
  | zero => exact absurd h n.not_shallow_zero
  | succ k ih =>
    cases n with
    | property | literal | comparison => simp only [compileWithin, compile]
    | logical c ns =>
      have hns : ns.mapM (compileWithin k) = some (ns.map compile) :=
        mapM_eq_some_map fun m hm => ih (h.child hm)
      simp only [compileWithin, compile, hns, compileAll_eq_mapM, Option.bind_eq_bind,
        Option.bind_some, List.mapM_map]
      rfl
    | function f ns =>
      by_cases hargs : ∃ p l, ns = [.property p, .literal l]
      · obtain ⟨p, l, rfl⟩ := hargs
        rfl
      · have hother (p : Property) (l : Literal) : ns ≠ [.property p, .literal l] :=
          fun e => hargs ⟨p, l, e⟩
        rw [compileWithin, compile]
        · exact hother
        · exact hother
    | group m =>
      rw [compileWithin, compile, ih (h.child (List.mem_singleton_self m))]

theorem shallow_of_parse {input : String} {n : Node} (h : parse input = .ok n) :
    ∀ path, n.Path path → path.countP isOpening ≤ Parser.maxDepth ∧
      path.length ≤ 3 * Parser.maxDepth + 4 := by
  obtain ⟨hcanonical, hnesting⟩ := canonical_of_parse h
  intro path hpath
  have hcount := Nat.le_trans hpath.countP_le hnesting
  refine ⟨hcount, Nat.le_trans (hpath.length_le hcanonical) ?_⟩
  exact Nat.add_le_add (Nat.mul_le_mul_left 3 hcount) n.room_bounds.2

/-- A filter that has been read is canonical. No way down its tree has more `not`s and groups than
may be open, nor more nodes than these leave room for, and with so many calls open at once it can be
printed and compiled. -/
theorem parsed_is_canonical_and_bounded {input : String} {n : Node} (h : parse input = .ok n) :
    n.Canonical ∧
      (∀ path, n.Path path → path.countP isOpening ≤ 128 ∧ path.length ≤ 3 * 128 + 4) ∧
      charsWithin (3 * 128 + 4) n = some n.chars ∧
      compileWithin (3 * 128 + 4) n = some (compile n) := by
  have hpaths : ∀ path, n.Path path → path.countP isOpening ≤ 128 ∧ path.length ≤ 3 * 128 + 4 :=
    shallow_of_parse h
  have hshallow : n.Shallow (3 * 128 + 4) := fun path hpath => (hpaths path hpath).2
  exact ⟨(canonical_of_parse h).1, hpaths, charsWithin_eq hshallow, compileWithin_eq hshallow⟩

/-- A way down to the property of a call, through every kind of condition. -/
theorem parsed_is_canonical_and_bounded_mixed :
    let call := Node.call .contains ⟨"b"⟩ (.string "x")
    let both := Node.logical .and [call, .comparison ⟨"c"⟩ .like (.boolean true)]
    let either := Node.logical .or [.comparison ⟨"a"⟩ .eq .null, both]
    let n := Node.logical .not [.group either]
    let path := [n, .group either, either, both, call, .property ⟨"b"⟩]
    parse "not (a = null or contains(b, 'x') and c ~ true)" = .ok n ∧ n.Canonical ∧
      (n.Path path ∧ path.countP isOpening ≤ 128 ∧ path.length ≤ 3 * 128 + 4) ∧
      charsWithin (3 * 128 + 4) n = some n.chars ∧
      compileWithin (3 * 128 + 4) n = some (compile n) := by
  intro call both either n path
  have hparse : parse "not (a = null or contains(b, 'x') and c ~ true)" = .ok n := by cbv
  have hpath : n.Path path := by
    refine .down ?_ (.down ?_ (.down ?_ (.down ?_ (.down ?_ (.leaf rfl)))))
    all_goals simp [n, either, both, call, Node.call, children]
  obtain ⟨hcanonical, hpaths, hchars, hcompile⟩ := parsed_is_canonical_and_bounded hparse
  exact ⟨hparse, hcanonical, ⟨hpath, hpaths path hpath⟩, hchars, hcompile⟩

end Query

end FilterQuery
