import FilterQuery.Proofs.Expression.Transition

/-! The bound on what is open at once. Each level keeps its finished operands so shallow that the
`not`s and groups which are open about them still fit, and no transition breaks this. -/

namespace FilterQuery.Expression

namespace Node

theorem nestingAll_add_le_iff {ns : List Node} {k d : Nat} :
    nestingAll ns + k ≤ d ↔ k ≤ d ∧ ∀ n ∈ ns, n.nesting + k ≤ d := by
  induction ns with
  | nil => simp [nestingAll]
  | cons n ns ih =>
    rw [List.forall_mem_cons, nestingAll, ← Nat.add_max_add_right, Nat.max_le, ih]
    exact and_left_comm

theorem nesting_logical {c : Connective} (h : c ≠ .not) (ns : List Node) :
    (logical c ns).nesting = nestingAll ns := by
  cases c with
  | and | or => rw [nesting]; exact nofun
  | not => exact absurd rfl h

theorem nesting_chain {c : Connective} (h : c ≠ .not) (ns : List Node) :
    (chain c ns).nesting = nestingAll ns := by
  unfold chain
  split
  · simp [nestingAll]
  · exact nesting_logical h ns

@[simp] theorem nesting_comparison (p : Property) (op : Operator) (l : Literal) :
    (comparison p op l).nesting = 0 := by rw [nesting]

@[simp] theorem nesting_call (f : FunctionName) (p : Property) (l : Literal) :
    (call f p l).nesting = 0 := by simp [call, nesting, nestingAll]

@[simp] theorem nesting_not (n : Node) : (logical .not [n]).nesting = n.nesting + 1 := by
  simp [nesting, nestingAll]

@[simp] theorem nesting_group (n : Node) : (group n).nesting = n.nesting + 1 := by rw [nesting]

end Node

namespace Parser

def openAbout (outer : List Level) : Nat := outer.length + outer.countP (·.negated)

theorem openAbout_cons (l : Level) (outer : List Level) :
    openAbout (l :: outer) = openAbout outer + l.negated.toNat + 1 := by
  unfold openAbout
  rw [List.length_cons, List.countP_cons]
  cases l.negated <;> simp <;> omega

theorem depth_eq (l : Level) (outer : List Level) (place : Place) :
    State.depth ⟨l, outer, place⟩ = openAbout outer + l.negated.toNat := by
  have hcons := openAbout_cons l outer
  change outer.length + 1 + (l :: outer).countP (·.negated) = _ at hcons
  change outer.length + (l :: outer).countP (·.negated) = _
  omega

def Level.Fits (k : Nat) (l : Level) : Prop :=
  ∀ n ∈ l.disjuncts ++ l.conjuncts, n.nesting + k ≤ maxDepth

section
variable {k : Nat} {l : Level} {n : Node}

theorem Level.fits_empty : empty.Fits k := nofun

theorem Level.Fits.push (h : l.Fits k) (hn : n.nesting + (k + l.negated.toNat) ≤ maxDepth) :
    (l.push n).Fits k := by
  intro m hm
  rw [Level.push] at hm
  rcases List.mem_append.1 hm with hdisjunct | hconjunct
  · exact h m (List.mem_append_left _ hdisjunct)
  rcases List.mem_cons.1 hconjunct with rfl | hconjunct
  · cases hneg : l.negated <;> rw [hneg] at hn <;> simp at hn ⊢ <;> omega
  · exact h m (List.mem_append_right _ hconjunct)

theorem Level.Fits.nextDisjunct (h : l.Fits k) (hk : k ≤ maxDepth) : l.nextDisjunct.Fits k := by
  intro m hm
  rw [Level.nextDisjunct, List.append_nil] at hm
  rcases List.mem_cons.1 hm with rfl | hm
  · rw [Node.nesting_chain (by decide), Node.nestingAll_add_le_iff]
    exact ⟨hk, fun n hn => h n (List.mem_append_right _ (List.mem_reverse.1 hn))⟩
  · exact h m (List.mem_append_left _ hm)

theorem Level.Fits.node (h : l.Fits k) (hk : k ≤ maxDepth) : l.node.nesting + k ≤ maxDepth := by
  rw [Level.node, Node.nesting_chain (by decide), Node.nestingAll_add_le_iff]
  refine ⟨hk, fun n hn => h.nextDisjunct hk n ?_⟩
  exact List.mem_append_left _ (List.mem_reverse.1 hn)

end

inductive Stacked : List Level → Prop where
  | nil : Stacked []
  | cons {l : Level} {outer : List Level} : l.Fits (openAbout outer) → Stacked outer →
      Stacked (l :: outer)

/-- The invariant of the parser: no operand is too deep, no more is open than may be, and a `not`
is open only up to the end of its operand. -/
structure Fits (s : State) : Prop where
  stacked : Stacked (s.level :: s.outer)
  depth_le : s.depth ≤ maxDepth
  closed : s.place = .continuation → s.level.negated = false

theorem fits_start : Fits .start := ⟨.cons Level.fits_empty .nil, Nat.zero_le _, nofun⟩

section
variable {l : Level} {outer : List Level} {place : Place} {n : Node}

theorem fits_push (hl : l.Fits (openAbout outer)) (houter : Stacked outer)
    (hn : n.nesting + (openAbout outer + l.negated.toNat) ≤ maxDepth) :
    Fits ⟨l.push n, outer, .continuation⟩ := by
  refine ⟨.cons (hl.push hn) houter, ?_, fun _ => rfl⟩
  rw [depth_eq]
  simp only [Level.push, Bool.toNat_false]
  omega

theorem Fits.move {place' : Place} (h : Fits ⟨l, outer, place⟩) (hplace : place' ≠ .continuation) :
    Fits ⟨l, outer, place'⟩ :=
  ⟨h.stacked, h.depth_le, fun heq => absurd heq hplace⟩

theorem Fits.complete (h : Fits ⟨l, outer, place⟩) (hn : n.nesting = 0) :
    Fits ⟨l.push n, outer, .continuation⟩ := by
  have hdepth := h.depth_le
  rw [depth_eq] at hdepth
  cases h.stacked with
  | cons hl houter => exact fits_push hl houter (by omega)

end

theorem Fits.step {s s' : State} {t : Token} (h : Fits s) (hstep : Step s t s') : Fits s' := by
  cases hstep with
  | not ht hneg hdepth =>
    cases h.stacked with
    | cons hl houter =>
      refine ⟨.cons hl houter, ?_, nofun⟩
      rw [depth_eq, hneg] at hdepth
      rw [depth_eq]
      exact hdepth
  | opening ht hdepth =>
    refine ⟨.cons Level.fits_empty h.stacked, ?_, nofun⟩
    rw [depth_eq] at hdepth
    rw [depth_eq, openAbout_cons]
    exact hdepth
  | @closing l m outer t ht =>
    have hneg := h.closed rfl
    have hdepth := h.depth_le
    rw [depth_eq, hneg, openAbout_cons] at hdepth
    cases h.stacked with
    | cons hm hstacked =>
      cases hstacked with
      | cons hl houter =>
        -- The level that ends has left room for its own group, which is open no more.
        rw [openAbout_cons] at hm
        have hnode : m.node.nesting + _ ≤ _ := hm.node hdepth
        refine fits_push hl houter ?_
        rw [Node.nesting_group]
        omega
  | and ht => exact h.move nofun
  | or ht =>
    have hneg := h.closed rfl
    have hdepth := h.depth_le
    rw [depth_eq, hneg] at hdepth
    cases h.stacked with
    | cons hl houter =>
      refine ⟨.cons (hl.nextDisjunct hdepth) houter, ?_, nofun⟩
      rw [depth_eq, Level.nextDisjunct, hneg]
      exact hdepth
  | literal hv => exact h.complete (Node.nesting_comparison ..)
  | callClosing ht => exact h.complete (Node.nesting_call ..)
  | property | operator | function | callOpening | callProperty | callComma | callLiteral =>
    exact h.move nofun

theorem Fits.steps {s s' : State} {ts : List Token} (h : Fits s) (hsteps : Steps s ts s') :
    Fits s' := by
  induction hsteps with
  | nil => exact h
  | cons hstep _ ih => exact ih (h.step hstep)

theorem Fits.nesting_le {s : State} {n : Node} (h : Fits s) (hresult : s.result? = some n) :
    n.nesting ≤ maxDepth := by
  obtain ⟨l, outer, place⟩ := s
  unfold State.result? at hresult
  split at hresult
  · next hplace houter =>
    cases hresult
    obtain rfl := houter
    cases h.stacked with
    | cons hl _ => exact hl.node (Nat.zero_le _)
  · cases hresult

end Parser

end FilterQuery.Expression
