import FilterQuery.Proofs.Expression.Nesting
import FilterQuery.Proofs.Expression.Parsed
import FilterQuery.Proofs.Expression.RoundTrip

/-! What is read from the text of a conjunction whose second operand is a chain itself. The text has
no parentheses about that chain, so its parts associate as `and` and `or` bind. -/

namespace FilterQuery.Expression

open Grammar Lexeme Node

namespace Node

def conjoin (m : Node) : Node → Node
  | .logical .and ns => .logical .and (m :: ns)
  | n => .logical .and [m, n]

/-- The conjunction of `m` and the first disjunct of `n`, in the place of that disjunct. -/
def conjoinFirst (m : Node) : Node → Node
  | .logical .or (n :: ns) => .logical .or (m.conjoin n :: ns)
  | n => m.conjoin n

variable {m n : Node} {ns : List Node}

theorem conjoin_of_not_and (h : ∀ ns, n ≠ .logical .and ns) :
    m.conjoin n = .logical .and [m, n] := by
  unfold conjoin
  split
  · next ns => exact absurd rfl (h ns)
  · rfl

theorem conjoinFirst_of_not_or (h : ∀ ns, n ≠ .logical .or ns) :
    m.conjoinFirst n = m.conjoin n := by
  unfold conjoinFirst
  split
  · next n ns => exact absurd rfl (h (n :: ns))
  · rfl

theorem nesting_and (ns : List Node) : (logical .and ns).nesting = nestingAll ns :=
  nesting_logical (by decide) ns

theorem nesting_or (ns : List Node) : (logical .or ns).nesting = nestingAll ns :=
  nesting_logical (by decide) ns

theorem nesting_conjoin (m n : Node) : (m.conjoin n).nesting = max m.nesting n.nesting := by
  unfold conjoin
  split
  · rw [nesting_and, nesting_and, nestingAll]
  · rw [nesting_and, nestingAll, nestingAll, nestingAll, Nat.max_zero]

theorem nesting_conjoinFirst (m n : Node) :
    (m.conjoinFirst n).nesting = max m.nesting n.nesting := by
  unfold conjoinFirst
  split
  · rw [nesting_or, nesting_or, nestingAll, nestingAll, nesting_conjoin, Nat.max_assoc]
  · exact nesting_conjoin m _

end Node

/-! ## The text of a conjunction -/

section
variable {m n : Node} {ts us : List Token} {t : Token} {ns : List Node}

theorem conjoin_chain (h : Conjuncts ts ns) :
    m.conjoin (chain .and ns) = .logical .and (m :: ns) := by
  cases h with
  | one hn =>
    apply conjoin_of_not_and
    rintro ns rfl
    cases hn.isChain_eq_false
  | and _ _ hs => cases hs <;> rfl

theorem chain_and_cons (h : Conjuncts ts ns) : chain .and (m :: ns) = .logical .and (m :: ns) := by
  refine chain_of_two_le ?_
  cases h <;> exact Nat.le_add_left 2 _

theorem disjunction_conjoinFirst (hm : Operand ts m) (ht : t.kind = .and) (hn : n.Canonical)
    (h : Derived n us) : Disjunction (ts ++ t :: us) (m.conjoinFirst n) := by
  cases hor : n.isOr with
  | false =>
    obtain ⟨ns, rfl, hns⟩ := h.conjuncts hn hor
    have hdisjunction : Disjunction (ts ++ t :: us) (chain .and (m :: ns)) :=
      .mk (.one (.and hm ht hns))
    have hnot (ks : List Node) : chain .and ns ≠ .logical .or ks := fun hks => by
      rw [hks] at hor
      cases hor
    rwa [conjoinFirst_of_not_or hnot, conjoin_chain hns, ← chain_and_cons hns]
  | true =>
    cases hn with
    | or hlength =>
      have hd : Disjuncts us _ := h
      cases hd with
      | one => exact absurd hlength (Nat.lt_irrefl 1)
      | @or t' vs ws ks ms hc ht' hs =>
        -- The operand in front joins the first disjunct, and the others stay what they are.
        have hdisjunction := Disjunction.mk (.or (.and hm ht hc) ht' hs)
        have hlength' : 2 ≤ (chain .and (m :: ks) :: ms).length := hlength
        rw [chain_of_two_le hlength', chain_and_cons hc, List.append_assoc] at hdisjunction
        rw [conjoinFirst, conjoin_chain hc]
        exact hdisjunction
    | comparison | function | group | not | and => cases hor

theorem reads_conjunction {m n : Node} (hm : m.Canonical) (hprimary : m.isPrimary)
    (hn : n.Canonical) :
    Reads (logical .and [m, n]).chars fun ts => Disjunction ts (m.conjoinFirst n) := by
  have hword : Spelled .and Connective.and.spelling.toList := spelled_word rfl rfl (by decide)
  have hread := reads_joined (reads_of_canonical hm) hword (reads_of_canonical hn)
  have htext : (logical .and [m, n]).chars =
      m.chars ++ (' ' :: Connective.and.spelling.toList ++ [' ']) ++ n.chars := by
    rw [chars, texts, texts, texts, List.intercalate_cons_cons, List.intercalate_singleton]
    rintro ⟨⟩
  rw [htext]
  refine hread.mono ?_
  rintro _ ⟨us, t, vs, rfl, hus, ht, hvs⟩
  exact disjunction_conjoinFirst (.plain (hus.primary hprimary)) ht hn hvs

end

theorem parse_ofList_eq_ok_iff {cs : List Char} {m n : Node}
    (h : Reads cs fun ts => Disjunction ts m) :
    parse (.ofList cs) = .ok n ↔ n = m ∧ m.nesting ≤ Parser.maxDepth := by
  obtain ⟨ts, hm, htokens⟩ := h.tokenize
  rw [parse_eq_ok_iff]
  constructor
  · rintro ⟨us, hus, hn, hdepth⟩
    obtain ⟨rfl, -⟩ := List.append_inj' (Except.ok.inj (htokens.symm.trans hus)) rfl
    have hend : NotAhead .and [] ∧ NotAhead .or [] := ⟨nofun, nofun⟩
    obtain rfl := (hn.unique hm (rfl : ts ++ [] = ts ++ []) hend hend).2
    exact ⟨rfl, hdepth⟩
  · rintro ⟨rfl, hdepth⟩
    exact ⟨ts, htokens, hm, hdepth⟩

theorem parse_print_eq_ok_iff {n u : Node} (hn : n.Canonical) :
    parse n.print = .ok u ↔ u = n ∧ n.nesting ≤ Parser.maxDepth :=
  parse_ofList_eq_ok_iff ((reads_of_canonical hn).mono fun _ h => h.disjunction hn)

theorem parse_conjunction_eq_ok_iff {m n u : Node} (hm : m.Canonical) (hprimary : m.isPrimary)
    (hn : n.Canonical) :
    parse (logical .and [m, n]).print = .ok u ↔
      u = m.conjoinFirst n ∧ (logical .and [m, n]).nesting ≤ Parser.maxDepth := by
  have hnesting : (logical .and [m, n]).nesting = (m.conjoinFirst n).nesting := by
    rw [nesting_conjoinFirst, nesting_and, nestingAll, nestingAll, nestingAll, Nat.max_zero]
  rw [hnesting]
  exact parse_ofList_eq_ok_iff (reads_conjunction hm hprimary hn)

end FilterQuery.Expression
