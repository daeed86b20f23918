import FilterQuery.Proofs.Expression.Nesting
import FilterQuery.Proofs.Expression.Recognition

/-! Every derivation is a run. It is followed from left to right, and each part of it ends with its
tree in the level which it began in. -/

namespace FilterQuery.Expression

namespace Grammar

open Expression.Parser

mutual

theorem Primary.steps {ts : List Token} {n : Node} {l : Level} {outer : List Level}
    (h : Primary ts n) (hroom : n.nesting + (openAbout outer + l.negated.toNat) ≤ maxDepth) :
    Steps ⟨l, outer, .operand⟩ ts ⟨l.push n, outer, .continuation⟩ := by
  match h with
  | .comparison hp ho hv =>
    exact .cons (.property hp) <| .cons (.operator ho) <| .cons (.literal hv.literal_eq) .nil
  | .call hf hopening hp hcomma hv hclosing =>
    exact .cons (.function hf) <| .cons (.callOpening hopening) <| .cons (.callProperty hp) <|
      .cons (.callComma hcomma) <| .cons (.callLiteral hv.literal_eq) <|
      .cons (.callClosing hclosing) .nil
  | .group hopening he hclosing =>
    rw [Node.nesting_group] at hroom
    -- Within the group one more thing is open than about it.
    have hbelow := openAbout_cons l outer
    have hdepth : State.depth ⟨l, outer, .operand⟩ < maxDepth := by
      rw [depth_eq]
      omega
    obtain ⟨m, rfl, hsteps⟩ := he.steps (by omega : _ + openAbout (l :: outer) ≤ maxDepth)
    exact .cons (.opening hopening hdepth) (hsteps.append (Step.closing hclosing).steps)
termination_by structural h

theorem Operand.steps {ts : List Token} {n : Node} {ds cs : List Node} {outer : List Level}
    (h : Operand ts n) (hroom : n.nesting + openAbout outer ≤ maxDepth) :
    Steps ⟨⟨ds, cs, false⟩, outer, .operand⟩ ts ⟨⟨ds, n :: cs, false⟩, outer, .continuation⟩ := by
  match h with
  | .plain hn => exact hn.steps hroom
  | .not ht hn =>
    rw [Node.nesting_not] at hroom
    have hdepth : State.depth ⟨⟨ds, cs, false⟩, outer, .operand⟩ < maxDepth := by
      rw [depth_eq, Bool.toNat_false]
      omega
    refine .cons (.not ht rfl hdepth) (hn.steps ?_)
    rw [Bool.toNat_true]
    omega
termination_by structural h

theorem Conjuncts.steps {ts : List Token} {ns ds cs : List Node} {outer : List Level}
    (h : Conjuncts ts ns) (hroom : Node.nestingAll ns + openAbout outer ≤ maxDepth) :
    Steps ⟨⟨ds, cs, false⟩, outer, .operand⟩ ts
      ⟨⟨ds, ns.reverse ++ cs, false⟩, outer, .continuation⟩ := by
  match h with
  | .one hn =>
    rw [Node.nestingAll_add_le_iff] at hroom
    exact hn.steps (hroom.2 _ List.mem_cons_self)
  | .and hn ht hs =>
    rw [Node.nestingAll] at hroom
    rw [List.reverse_cons, List.append_assoc]
    have hfirst : Steps ⟨⟨ds, cs, false⟩, outer, .operand⟩ _ _ := hn.steps (by omega)
    exact hfirst.append (.cons (.and ht) (hs.steps (by omega)))
termination_by structural h

theorem Disjuncts.steps {ts : List Token} {ns ds : List Node} {outer : List Level}
    (h : Disjuncts ts ns) (hroom : Node.nestingAll ns + openAbout outer ≤ maxDepth) :
    ∃ l : Level, l.nextDisjunct.disjuncts = ns.reverse ++ ds ∧
      Steps ⟨⟨ds, [], false⟩, outer, .operand⟩ ts ⟨l, outer, .continuation⟩ := by
  match h with
  | .one hc =>
    rw [Node.nestingAll, Node.nesting_chain (by decide)] at hroom
    refine ⟨_, ?_, hc.steps (by omega)⟩
    rw [Level.nextDisjunct, List.append_nil, List.reverse_reverse]
    rfl
  | .or hc ht hs =>
    rw [Node.nestingAll, Node.nesting_chain (by decide)] at hroom
    have hfirst : Steps ⟨⟨ds, [], false⟩, outer, .operand⟩ _ _ := hc.steps (by omega)
    obtain ⟨l, hl, hrest⟩ := hs.steps (by omega : _ + openAbout outer ≤ maxDepth)
    rw [List.reverse_cons, List.append_assoc]
    refine ⟨l, hl, hfirst.append (.cons (.or ht) ?_)⟩
    rw [Level.nextDisjunct, List.append_nil, List.reverse_reverse]
    exact hrest
termination_by structural h

theorem Disjunction.steps {ts : List Token} {n : Node} {outer : List Level}
    (h : Disjunction ts n) (hroom : n.nesting + openAbout outer ≤ maxDepth) :
    ∃ l : Level, l.node = n ∧ Steps ⟨.empty, outer, .operand⟩ ts ⟨l, outer, .continuation⟩ := by
  match h with
  | .mk hd =>
    rw [Node.nesting_chain (by decide)] at hroom
    obtain ⟨l, hl, hsteps⟩ := hd.steps hroom
    refine ⟨l, ?_, hsteps⟩
    rw [Level.node, hl, List.append_nil, List.reverse_reverse]
termination_by structural h

end

end Grammar

end FilterQuery.Expression
