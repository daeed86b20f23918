import FilterQuery.Proofs.Expression.Transition

/-! The parser recognises the grammar: what a state has read is what its levels and its place stand
for, and every derivation is a sequence of transitions. -/

namespace FilterQuery.Expression

namespace Grammar

theorem Conjuncts.snoc {ts us : List Token} {t : Token} {ns : List Node} {n : Node}
    (h : Conjuncts ts ns) (ht : t.kind = .and) (h' : Operand us n) :
    Conjuncts (ts ++ t :: us) (ns ++ [n]) := by
  match h with
  | .one ho => exact .and ho ht (.one h')
  | .and ho hand hs =>
    rw [List.append_assoc]
    exact .and ho hand (hs.snoc ht h')
termination_by structural h

theorem Disjuncts.snoc {ts us : List Token} {t : Token} {ns ms : List Node}
    (h : Disjuncts ts ns) (ht : t.kind = .or) (h' : Conjuncts us ms) :
    Disjuncts (ts ++ t :: us) (ns ++ [.chain .and ms]) := by
  match h with
  | .one hc => exact .or hc ht (.one h')
  | .or hc hor hs =>
    rw [List.append_assoc]
    exact .or hc hor (hs.snoc ht h')
termination_by structural h

end Grammar

namespace Parser

open Grammar

/-! ## What a state has read -/

inductive Pending (separator : TokenKind) (chain : List Token → List Node → Prop) :
    List Token → List Node → Prop where
  | nothing : Pending separator chain [] []
  | chain {ts : List Token} {t : Token} {ns : List Node} : chain ts ns → t.kind = separator →
      Pending separator chain (ts ++ [t]) ns

theorem Pending.conjuncts {ts us : List Token} {ns : List Node} {n : Node}
    (h : Pending .and Conjuncts ts ns) (h' : Operand us n) : Conjuncts (ts ++ us) (ns ++ [n]) := by
  cases h with
  | nothing => exact .one h'
  | chain hc ht =>
    rw [List.append_assoc]
    exact hc.snoc ht h'

theorem Pending.disjuncts {ts us : List Token} {ns ms : List Node}
    (h : Pending .or Disjuncts ts ns) (h' : Conjuncts us ms) :
    Disjuncts (ts ++ us) (ns ++ [.chain .and ms]) := by
  cases h with
  | nothing => exact .one h'
  | chain hd ht =>
    rw [List.append_assoc]
    exact hd.snoc ht h'

inductive Negation : Bool → List Token → Prop where
  | absent : Negation false []
  | present {t : Token} : t.kind = .not → Negation true [t]

namespace Level

def Before (l : Level) (ts : List Token) : Prop :=
  ∃ us vs ws, ts = us ++ vs ++ ws ∧ Pending .or Disjuncts us l.disjuncts.reverse ∧
    Pending .and Conjuncts vs l.conjuncts.reverse ∧ Negation l.negated ws

def After (l : Level) (ts : List Token) : Prop :=
  ∃ us vs, ts = us ++ vs ∧ l.negated = false ∧ Pending .or Disjuncts us l.disjuncts.reverse ∧
    Conjuncts vs l.conjuncts.reverse

variable {l : Level} {ts us : List Token} {t : Token} {n : Node}

theorem before_empty : empty.Before [] := ⟨[], [], [], rfl, .nothing, .nothing, .absent⟩

theorem Before.not (h : l.Before ts) (hneg : l.negated = false) (ht : t.kind = .not) :
    Before { l with negated := true } (ts ++ [t]) := by
  obtain ⟨us, vs, ws, rfl, hd, hc, hn⟩ := h
  rw [hneg] at hn
  cases hn
  exact ⟨us, vs, [t], by rw [List.append_nil], hd, hc, .present ht⟩

theorem Before.push (h : l.Before ts) (hn : Primary us n) : (l.push n).After (ts ++ us) := by
  obtain ⟨vs, ws, xs, rfl, hd, hc, hneg⟩ := h
  refine ⟨vs, ws ++ (xs ++ us), by simp only [List.append_assoc], rfl, hd, ?_⟩
  rw [push, List.reverse_cons]
  apply hc.conjuncts
  -- A `not` that waits takes the primary for its operand.
  generalize l.negated = negated at hneg
  cases hneg with
  | absent => exact .plain hn
  | present ht => exact .not ht hn

theorem After.and (h : l.After ts) (ht : t.kind = .and) : l.Before (ts ++ [t]) := by
  obtain ⟨us, vs, rfl, hneg, hd, hc⟩ := h
  exact ⟨us, vs ++ [t], [], by simp only [List.append_assoc, List.append_nil], hd, .chain hc ht,
    hneg ▸ .absent⟩

theorem After.or (h : l.After ts) (ht : t.kind = .or) : l.nextDisjunct.Before (ts ++ [t]) := by
  obtain ⟨us, vs, rfl, hneg, hd, hc⟩ := h
  refine ⟨us ++ vs ++ [t], [], [], by simp only [List.append_nil], .chain ?_ ht, .nothing,
    hneg ▸ .absent⟩
  rw [nextDisjunct, List.reverse_cons]
  exact hd.disjuncts hc

theorem After.disjunction (h : l.After ts) : Disjunction ts l.node := by
  obtain ⟨us, vs, rfl, -, hd, hc⟩ := h
  rw [node, nextDisjunct, List.reverse_cons]
  exact .mk (hd.disjuncts hc)

end Level

inductive Opened : List Level → List Token → Prop where
  | nil : Opened [] []
  | cons {l : Level} {outer : List Level} {ts us : List Token} {t : Token} : Opened outer ts →
      l.Before us → t.kind = .leftParen → Opened (l :: outer) (ts ++ us ++ [t])

inductive Begun : Place → List Token → Prop where
  | operand : Begun .operand []
  | operator {p : Token} : p.kind = .identifier → Begun (.operator ⟨p.text⟩) [p]
  | literal {p o : Token} {op : Operator} : p.kind = .identifier → IsOperator o op →
      Begun (.literal ⟨p.text⟩ op) [p, o]
  | callOpening {a : Token} {f : FunctionName} : IsFunction a f → Begun (.callOpening f) [a]
  | callProperty {a b : Token} {f : FunctionName} : IsFunction a f → b.kind = .leftParen →
      Begun (.callProperty f) [a, b]
  | callComma {a b p : Token} {f : FunctionName} : IsFunction a f → b.kind = .leftParen →
      p.kind = .identifier → Begun (.callComma f ⟨p.text⟩) [a, b, p]
  | callLiteral {a b p c : Token} {f : FunctionName} : IsFunction a f → b.kind = .leftParen →
      p.kind = .identifier → c.kind = .comma → Begun (.callLiteral f ⟨p.text⟩) [a, b, p, c]
  | callClosing {a b p c v : Token} {f : FunctionName} {l : Literal} : IsFunction a f →
      b.kind = .leftParen → p.kind = .identifier → c.kind = .comma → IsLiteral v l →
      Begun (.callClosing f ⟨p.text⟩ l) [a, b, p, c, v]

/-- That `ts` are the tokens which a state has read. -/
inductive Covers : State → List Token → Prop where
  | within {l : Level} {outer : List Level} {place : Place} {ts us vs : List Token} :
      Opened outer ts → l.Before us → Begun place vs → Covers ⟨l, outer, place⟩ (ts ++ us ++ vs)
  | between {l : Level} {outer : List Level} {ts us : List Token} : Opened outer ts →
      l.After us → Covers ⟨l, outer, .continuation⟩ (ts ++ us)

theorem covers_start : Covers .start [] := .within .nil Level.before_empty .operand

section
variable {l : Level} {outer : List Level} {place : Place} {n : Node}
variable {ts us vs : List Token} {t : Token}

theorem Covers.advance (ho : Opened outer ts) (hl : l.Before us) (hp : Begun place (vs ++ [t])) :
    Covers ⟨l, outer, place⟩ (ts ++ us ++ vs ++ [t]) := by
  rw [List.append_assoc _ vs]
  exact .within ho hl hp

theorem Covers.complete (ho : Opened outer ts) (hl : l.Before us) (hn : Primary (vs ++ [t]) n) :
    Covers ⟨l.push n, outer, .continuation⟩ (ts ++ us ++ vs ++ [t]) := by
  rw [List.append_assoc _ vs, List.append_assoc ts]
  exact .between ho (hl.push hn)

end

theorem Covers.step {s s' : State} {ts : List Token} {t : Token} (h : Covers s ts)
    (hliteral : ∀ v, Parser.literal t = .ok v → IsLiteral t v) (hstep : Step s t s') :
    Covers s' (ts ++ [t]) := by
  cases h with
  | within ho hl hp =>
    cases hstep with
    | not ht hneg hdepth =>
      cases hp
      rw [List.append_nil, List.append_assoc, ← List.append_nil (_ ++ (_ ++ _))]
      exact .within ho (hl.not hneg ht) .operand
    | opening ht hdepth =>
      cases hp
      rw [List.append_nil, ← List.append_nil (_ ++ _), ← List.append_nil (_ ++ _)]
      exact .within (.cons ho hl ht) Level.before_empty .operand
    | property ht =>
      cases hp
      exact .advance ho hl (.operator ht)
    | operator hop =>
      cases hp with
      | operator hp => exact .advance ho hl (.literal hp hop)
    | literal hv =>
      cases hp with
      | literal hp hop => exact .complete ho hl (.comparison hp hop (hliteral _ hv))
    | function hf =>
      cases hp
      exact .advance ho hl (.callOpening hf)
    | callOpening ht =>
      cases hp with
      | callOpening hf => exact .advance ho hl (.callProperty hf ht)
    | callProperty ht =>
      cases hp with
      | callProperty hf hb => exact .advance ho hl (.callComma hf hb ht)
    | callComma ht =>
      cases hp with
      | callComma hf hb hp => exact .advance ho hl (.callLiteral hf hb hp ht)
    | callLiteral hv =>
      cases hp with
      | callLiteral hf hb hp hc =>
        exact .advance ho hl (.callClosing hf hb hp hc (hliteral _ hv))
    | callClosing ht =>
      cases hp with
      | callClosing hf hb hp hc hv => exact .complete ho hl (.call hf hb hp hc hv ht)
    | closing | and | or => cases hp
  | between ho hl =>
    cases hstep with
    | closing ht =>
      cases ho with
      | cons ho hm hopening =>
        -- The group stands where the level about it was waiting for an operand.
        have hgroup := hm.push (.group hopening hl.disjunction ht)
        have hcovers := Covers.between ho hgroup
        simpa only [List.append_assoc, List.cons_append, List.nil_append] using hcovers
    | and ht =>
      rw [List.append_assoc, ← List.append_nil (_ ++ _)]
      exact .within ho (hl.and ht) .operand
    | or ht =>
      rw [List.append_assoc, ← List.append_nil (_ ++ _)]
      exact .within ho (hl.or ht) .operand

theorem Covers.steps {s s' : State} {ts us : List Token} (h : Covers s ts)
    (hliteral : ∀ t ∈ us, ∀ v, Parser.literal t = .ok v → IsLiteral t v) (hsteps : Steps s us s') :
    Covers s' (ts ++ us) := by
  induction hsteps generalizing ts with
  | nil => rwa [List.append_nil]
  | cons hstep _ ih =>
    rw [List.append_cons]
    exact ih (h.step (hliteral _ List.mem_cons_self) hstep)
      fun u hu => hliteral u (List.mem_cons_of_mem _ hu)

theorem Covers.disjunction {s : State} {ts : List Token} {n : Node} (h : Covers s ts)
    (hresult : s.result? = some n) : Disjunction ts n := by
  cases h with
  | within ho hl hp => cases hp <;> cases hresult
  | between ho hl =>
    cases ho with
    | nil => exact Option.some.inj hresult ▸ hl.disjunction
    | cons => cases hresult

end Parser

end FilterQuery.Expression
