import FilterQuery.Proofs.Expression.Grammar

/-! The trees that filters without superfluous nodes have, and what the grammar makes of each. -/

namespace FilterQuery.Expression

def Lexeme.isWord : List Char → Bool
  | [] => false
  | c :: cs => isWordStart c && cs.all isWordChar

/-- A name that can stand in a filter: a word that has no meaning of its own there. -/
def Property.Named (p : Property) : Prop :=
  Lexeme.isWord p.name.toList ∧ Text.foldCase p.name ∉ Lexeme.reserved.map Prod.fst

theorem wordKind_of_named {p : Property} (h : p.Named) :
    Lexeme.wordKind p.name = .identifier := by
  have hlookup : Lexeme.reserved.lookup (Text.foldCase p.name) = none := by
    rw [List.lookup_eq_none_iff]
    intro e he
    rw [bne_iff_ne]
    exact fun heq => h.2 (heq ▸ List.mem_map_of_mem he)
  rw [Lexeme.wordKind, hlookup]
  rfl

theorem exists_word_of_named {p : Property} (h : p.Named) :
    ∃ c cs, p.name.toList = c :: cs ∧ Lexeme.isWordStart c ∧ cs.all Lexeme.isWordChar := by
  have hword := h.1
  unfold Lexeme.isWord at hword
  split at hword
  · cases hword
  · next c cs hname => exact ⟨c, cs, hname, Bool.and_eq_true_iff.1 hword⟩

namespace Node

def isOr : Node → Bool
  | .logical .or _ => true
  | _ => false

def isChain : Node → Bool
  | .logical .and _ | .logical .or _ => true
  | _ => false

def isPrimary : Node → Bool
  | .comparison .. | .function .. | .group _ => true
  | _ => false

/-- That a tree is a condition throughout, with chains no shorter and `not`s no wider than they can
be written and no operand that would have to stand in parentheses. -/
inductive Canonical : Node → Prop where
  | comparison {p : Property} {op : Operator} {l : Literal} : p.Named →
      Canonical (.comparison p op l)
  | function {f : FunctionName} {p : Property} {l : Literal} : p.Named →
      Canonical (.function f [.property p, .literal l])
  | group {n : Node} : Canonical n → Canonical (.group n)
  | not {n : Node} : n.isPrimary → Canonical n → Canonical (.logical .not [n])
  | and {ns : List Node} : 2 ≤ ns.length → (∀ n ∈ ns, n.isChain = false) →
      (∀ n ∈ ns, Canonical n) → Canonical (.logical .and ns)
  | or {ns : List Node} : 2 ≤ ns.length → (∀ n ∈ ns, n.isOr = false) →
      (∀ n ∈ ns, Canonical n) → Canonical (.logical .or ns)

end Node

open Grammar Node

/-- The derivation that the tokens of a canonical tree have, by its topmost node. -/
def Derived : Node → List Token → Prop
  | .logical .or ns, ts => Disjuncts ts ns
  | .logical .and ns, ts => Conjuncts ts ns
  | .logical .not ns, ts => Operand ts (.logical .not ns)
  | n, ts => Primary ts n

section
variable {n : Node} {ts : List Token}

theorem Derived.primary (h : Derived n ts) (hn : n.isPrimary) : Primary ts n := by
  cases n with
  | comparison | function | group => exact h
  | property | literal | logical => cases hn

theorem Derived.operand (h : Derived n ts) (hn : n.isChain = false) : Operand ts n := by
  cases n with
  | logical c ns =>
    cases c with
    | not => exact h
    | and | or => cases hn
  | comparison | function | group | property | literal => exact .plain h

theorem Derived.conjuncts (h : Derived n ts) (hcanonical : n.Canonical) (hn : n.isOr = false) :
    ∃ ns, n = .chain .and ns ∧ Conjuncts ts ns := by
  by_cases hchain : n.isChain
  · cases hcanonical with
    | and hlength => exact ⟨_, (chain_of_two_le hlength).symm, h⟩
    | or => cases hn
    | comparison | function | group | not => cases hchain
  · rw [Bool.not_eq_true] at hchain
    exact ⟨[n], rfl, .one (h.operand hchain)⟩

theorem Derived.disjunction (h : Derived n ts) (hcanonical : n.Canonical) : Disjunction ts n := by
  by_cases hor : n.isOr
  · cases hcanonical with
    | or hlength =>
      rw [← chain_of_two_le hlength]
      exact .mk h
    | comparison | function | group | not | and => cases hor
  · rw [Bool.not_eq_true] at hor
    obtain ⟨ns, rfl, hns⟩ := h.conjuncts hcanonical hor
    exact .mk (.one hns)

end

end FilterQuery.Expression
