import FilterQuery.Proofs.Expression.Canonical
import FilterQuery.Proofs.Expression.Parsing

/-! Trees that have been parsed. They are canonical, since each part of a derivation has the shape
that its place in the grammar gives it, and they are no deeper than the parser lets a filter be. -/

namespace FilterQuery.Expression

open Lexeme (Spelled)
open Grammar Node

theorem wordKind_of_mem_reserved {word : String} (h : word ∈ Lexeme.reserved.map Prod.fst) :
    ∃ kind, Lexeme.reserved.lookup word = some kind ∧ kind ≠ .identifier := by
  obtain ⟨e, he, rfl⟩ := List.mem_map.1 h
  have hreserved : ∀ e ∈ Lexeme.reserved,
      Lexeme.reserved.lookup e.1 = some e.2 ∧ e.2 ≠ .identifier := by decide
  exact ⟨e.2, hreserved e he⟩

theorem named_of_spelled {t : Token} (h : Spelled t.kind t.text.toList)
    (hkind : t.kind = .identifier) : Property.Named ⟨t.text⟩ := by
  rw [hkind] at h
  generalize hidentifier : TokenKind.identifier = kind at h
  generalize htext : t.text.toList = text at h
  cases h with
  | @word c cs hc hcs =>
    rw [← htext, String.ofList_toList] at hidentifier
    refine ⟨?_, fun hreserved => ?_⟩
    · rw [htext, Lexeme.isWord, hc, List.all_eq_true.2 hcs]
      rfl
    · obtain ⟨kind, hlookup, hne⟩ := wordKind_of_mem_reserved hreserved
      rw [Lexeme.wordKind, hlookup] at hidentifier
      exact hne hidentifier.symm
  | leftParen | rightParen | comma | string | number | symbol => cases hidentifier

theorem canonical_chain_and {ns : List Node} (hne : ns ≠ [])
    (h : ∀ n ∈ ns, n.Canonical ∧ n.isChain = false) :
    (chain .and ns).Canonical ∧ (chain .and ns).isOr = false := by
  match ns with
  | [n] =>
    obtain ⟨hcanonical, hchain⟩ := h n List.mem_cons_self
    refine ⟨hcanonical, ?_⟩
    cases hcanonical with
    | and | or => cases hchain
    | comparison | function | group | not => rfl
  | n :: m :: ns =>
    exact ⟨.and (Nat.le_add_left 2 _) (fun k hk => (h k hk).2) fun k hk => (h k hk).1, rfl⟩

theorem canonical_chain_or {ns : List Node} (hne : ns ≠ [])
    (h : ∀ n ∈ ns, n.Canonical ∧ n.isOr = false) : (chain .or ns).Canonical := by
  match ns with
  | [n] => exact (h n List.mem_cons_self).1
  | n :: m :: ns =>
    exact .or (Nat.le_add_left 2 _) (fun k hk => (h k hk).2) fun k hk => (h k hk).1

namespace Grammar

theorem Operand.isChain_eq_false {ts : List Token} {n : Node} (h : Operand ts n) :
    n.isChain = false := by
  cases h with
  | plain hn => cases hn <;> rfl
  | not => rfl

mutual

theorem Primary.canonical {ts : List Token} {n : Node} (h : Primary ts n)
    (hts : ∀ t ∈ ts, Spelled t.kind t.text.toList) : n.Canonical ∧ n.isPrimary := by
  match h with
  | .comparison hp _ _ =>
    exact ⟨.comparison (named_of_spelled (hts _ List.mem_cons_self) hp), rfl⟩
  | .call _ _ hp _ _ _ =>
    have hname := named_of_spelled
      (hts _ (List.mem_cons_of_mem _ (List.mem_cons_of_mem _ List.mem_cons_self))) hp
    exact ⟨.function hname, rfl⟩
  | .group _ hn _ =>
    have hinner := (List.forall_mem_append.1 (List.forall_mem_cons.1 hts).2).1
    exact ⟨.group (hn.canonical hinner), rfl⟩
termination_by structural h

theorem Operand.canonical {ts : List Token} {n : Node} (h : Operand ts n)
    (hts : ∀ t ∈ ts, Spelled t.kind t.text.toList) : n.Canonical := by
  match h with
  | .plain hn => exact (hn.canonical hts).1
  | .not _ hn =>
    obtain ⟨hcanonical, hprimary⟩ := hn.canonical (List.forall_mem_cons.1 hts).2
    exact .not hprimary hcanonical
termination_by structural h

theorem Conjuncts.canonical {ts : List Token} {ns : List Node} (h : Conjuncts ts ns)
    (hts : ∀ t ∈ ts, Spelled t.kind t.text.toList) :
    ns ≠ [] ∧ ∀ n ∈ ns, n.Canonical ∧ n.isChain = false := by
  match h with
  | .one hn =>
    exact ⟨List.cons_ne_nil _ _,
      List.forall_mem_singleton.2 ⟨hn.canonical hts, hn.isChain_eq_false⟩⟩
  | .and hn _ hs =>
    obtain ⟨hfirst, hbehind⟩ := List.forall_mem_append.1 hts
    obtain ⟨-, hrest⟩ := hs.canonical (List.forall_mem_cons.1 hbehind).2
    exact ⟨List.cons_ne_nil _ _,
      List.forall_mem_cons.2 ⟨⟨hn.canonical hfirst, hn.isChain_eq_false⟩, hrest⟩⟩
termination_by structural h

theorem Disjuncts.canonical {ts : List Token} {ns : List Node} (h : Disjuncts ts ns)
    (hts : ∀ t ∈ ts, Spelled t.kind t.text.toList) :
    ns ≠ [] ∧ ∀ n ∈ ns, n.Canonical ∧ n.isOr = false := by
  match h with
  | .one hc =>
    obtain ⟨hne, hall⟩ := hc.canonical hts
    exact ⟨List.cons_ne_nil _ _, List.forall_mem_singleton.2 (canonical_chain_and hne hall)⟩
  | .or hc _ hs =>
    obtain ⟨hfirst, hbehind⟩ := List.forall_mem_append.1 hts
    obtain ⟨hne, hall⟩ := hc.canonical hfirst
    obtain ⟨-, hrest⟩ := hs.canonical (List.forall_mem_cons.1 hbehind).2
    exact ⟨List.cons_ne_nil _ _, List.forall_mem_cons.2 ⟨canonical_chain_and hne hall, hrest⟩⟩
termination_by structural h

theorem Disjunction.canonical {ts : List Token} {n : Node} (h : Disjunction ts n)
    (hts : ∀ t ∈ ts, Spelled t.kind t.text.toList) : n.Canonical := by
  match h with
  | .mk hd =>
    obtain ⟨hne, hall⟩ := hd.canonical hts
    exact canonical_chain_or hne hall
termination_by structural h

end

end Grammar

theorem canonical_of_parse {input : String} {n : Node} (h : parse input = .ok n) :
    n.Canonical ∧ n.nesting ≤ Parser.maxDepth := by
  obtain ⟨ts, htokens, hn, hdepth⟩ := parse_eq_ok_iff.1 h
  exact ⟨hn.canonical (Lexeme.spelled_of_mem_tokens htokens), hdepth⟩

end FilterQuery.Expression
