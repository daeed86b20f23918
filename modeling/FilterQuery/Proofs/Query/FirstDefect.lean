import FilterQuery.Proofs.Expression.Parsed
import FilterQuery.Search.Explain

/-! Where compilation fails: at the first node with a defect of its own, in the order in which
operands are compiled before their connective. -/

namespace FilterQuery

/-! ## Defects of single nodes -/

namespace Expression.Node

mutual

/-- The nodes of a tree outside the arguments of calls, from left to right and operands before their
connective. -/
def conditions : Node → List Node
  | .logical c ns => conditionsAll ns ++ [.logical c ns]
  | .group n => n.conditions ++ [.group n]
  | n => [n]

def conditionsAll : List Node → List Node
  | [] => []
  | n :: ns => n.conditions ++ conditionsAll ns

end

end Expression.Node

namespace Query

open Expression Fallible Search

/-- That a node has not the shape of a condition, which is laid to `operator` in these words. -/
inductive Misshapen : Node → (operator message : String) → Prop where
  | property (p : Property) :
      Misshapen (.property p) "property" ("'" ++ p.name ++ "' is not a condition on its own")
  | literal (l : Literal) :
      Misshapen (.literal l) "literal" (l.print ++ " is not a condition on its own")
  | chain {c : Connective} : c ≠ .not →
      Misshapen (.logical c []) c.spelling "expects at least one operand"
  | not {ns : List Node} : ns.length ≠ 1 →
      Misshapen (.logical .not ns) "not" ("expects exactly one operand, got " ++ toString ns.length)
  | function {f : FunctionName} {ns : List Node} :
      (∀ p l, ns ≠ [.property p, .literal l]) →
      Misshapen (.function f ns) f.spelling "expects (property, literal) arguments"

inductive Unfit : Operator → Literal → (message : String) → Prop where
  | null {op : Operator} : op ≠ .eq → op ≠ .ne →
      Unfit op .null "null can only be compared with eq or ne"
  | boolean {op : Operator} {b : Bool} : op ∈ [.gt, .ge, .lt, .le] →
      Unfit op (.boolean b) ("range bounds must be strings or numbers, got " ++ toString b)

inductive Misapplied : Node → (operator message : String) → Prop where
  | comparison {p : Property} {op : Operator} {l : Literal} {message : String} :
      Unfit op l message → Misapplied (.comparison p op l) op.spelling message
  | call {f : FunctionName} {p : Property} {l : Literal} {message : String} :
      Unfit f.operator l message → Misapplied (.call f p l) f.spelling message

def Blamed (n : Node) (operator message : String) : Prop :=
  Misshapen n operator message ∨ Misapplied n operator message

def Sound (n : Node) : Prop := ∀ operator message, ¬Blamed n operator message

def FirstBlamed (ns : List Node) (operator message : String) : Prop :=
  ∃ before n behind, ns = before ++ n :: behind ∧ (∀ m ∈ before, Sound m) ∧
    Blamed n operator message

section
variable {n : Node} {ms ns : List Node} {operator message : String}

theorem FirstBlamed.singleton (h : Blamed n operator message) :
    FirstBlamed [n] operator message := ⟨[], n, [], rfl, nofun, h⟩

theorem FirstBlamed.append (h : FirstBlamed ms operator message) (ns : List Node) :
    FirstBlamed (ms ++ ns) operator message := by
  obtain ⟨before, n, behind, rfl, hbefore, hn⟩ := h
  exact ⟨before, n, behind ++ ns, List.append_assoc .., hbefore, hn⟩

theorem FirstBlamed.behind (hms : ∀ m ∈ ms, Sound m) (h : FirstBlamed ns operator message) :
    FirstBlamed (ms ++ ns) operator message := by
  obtain ⟨before, n, behind, rfl, hbefore, hn⟩ := h
  exact ⟨ms ++ before, n, behind, (List.append_assoc ..).symm,
    List.forall_mem_append.2 ⟨hms, hbefore⟩, hn⟩

theorem FirstBlamed.exists_blamed (h : FirstBlamed ns operator message) :
    ∃ n ∈ ns, Blamed n operator message := by
  obtain ⟨before, n, behind, rfl, -, hn⟩ := h
  exact ⟨n, List.mem_append_right _ List.mem_cons_self, hn⟩

end

/-! ## One node -/

theorem comparison_cases (p : Property) (op : Operator) (l : Literal) :
    ((∀ message, ¬Unfit op l message) ∧ ∃ q, comparison p op l = .ok q) ∨
      ∃ d, comparison p op l = .error d ∧ d.operator = op.spelling ∧ Unfit op l d.describe := by
  cases l with
  | null =>
    have htext : (Defect.nullOperand op).describe = "null can only be compared with eq or ne" := rfl
    have hunfit (heq : op ≠ .eq) (hne : op ≠ .ne) :
        Unfit op .null (Defect.nullOperand op).describe := by
      rw [htext]
      exact .null heq hne
    cases op with
    | eq =>
      refine .inl ⟨fun message h => ?_, _, rfl⟩
      cases h with
      | null heq => exact heq rfl
    | ne =>
      refine .inl ⟨fun message h => ?_, _, rfl⟩
      cases h with
      | null _ hne => exact hne rfl
    | _ => exact .inr ⟨_, rfl, rfl, hunfit nofun nofun⟩
  | string | number =>
    refine .inl ⟨nofun, ?_⟩
    cases op <;> exact ⟨_, rfl⟩
  | boolean b =>
    have htext : (Defect.unorderedBound op (.boolean b)).describe =
        "range bounds must be strings or numbers, got " ++ (Literal.boolean b).print := rfl
    have hprint : (Literal.boolean b).print = toString b := String.ofList_toList
    have hunfit (hop : op ∈ [.gt, .ge, .lt, .le]) :
        Unfit op (.boolean b) (Defect.unorderedBound op (.boolean b)).describe := by
      rw [htext, hprint]
      exact .boolean hop
    cases op with
    | gt | ge | lt | le => exact .inr ⟨_, rfl, rfl, hunfit (by simp)⟩
    | _ =>
      refine .inl ⟨fun message h => ?_, _, rfl⟩
      cases h with
      | boolean hop => simp at hop

theorem compile_comparison_cases (p : Property) (op : Operator) (l : Literal) :
    (Sound (.comparison p op l) ∧ ∃ q, compile (.comparison p op l) = .ok q) ∨
      ∃ d, compile (.comparison p op l) = .error d ∧
        Blamed (.comparison p op l) d.operator d.describe := by
  rcases comparison_cases p op l with ⟨hfit, hok⟩ | ⟨d, hd, hop, hunfit⟩
  · refine .inl ⟨?_, hok⟩
    rintro operator message (h | h)
    · cases h
    · cases h with
      | comparison h => exact hfit message h
  · exact .inr ⟨d, hd, .inr (hop ▸ .comparison hunfit)⟩

theorem arguments_cases (ns : List Node) :
    (∃ p l, ns = [.property p, .literal l]) ∨ ∀ p l, ns ≠ [.property p, .literal l] := by
  by_cases h : ∃ p l, ns = [.property p, .literal l]
  · exact .inl h
  · exact .inr fun p l hns => h ⟨p, l, hns⟩

theorem compile_function_cases (f : FunctionName) (ns : List Node) :
    (Sound (.function f ns) ∧ ∃ q, compile (.function f ns) = .ok q) ∨
      ∃ d, compile (.function f ns) = .error d ∧ Blamed (.function f ns) d.operator d.describe := by
  rcases arguments_cases ns with ⟨p, l, rfl⟩ | hother
  · rcases comparison_cases p f.operator l with ⟨hfit, hok⟩ | ⟨d, hd, hop, hunfit⟩
    · refine .inl ⟨?_, hok⟩
      rintro operator message (h | h)
      · cases h with
        | function hother => exact hother p l rfl
      · cases h with
        | call h => exact hfit message h
    · exact .inr ⟨d, hd, .inr (hop ▸ .call hunfit)⟩
  · refine .inr ⟨.arguments f, ?_, .inl (.function hother)⟩
    rw [compile]
    exact hother

theorem connect_cases (c : Connective) {ns : List Node} {qs : List Clause}
    (hlength : qs.length = ns.length) :
    (Sound (.logical c ns) ∧ ∃ q, connect c qs = .ok q) ∨
      ∃ d, connect c qs = .error d ∧ Blamed (.logical c ns) d.operator d.describe := by
  have hsound (h : ∀ operator message, ¬Misshapen (.logical c ns) operator message) :
      Sound (.logical c ns) := by
    rintro operator message (hshape | happlied)
    · exact h operator message hshape
    · cases happlied
  have hnone : (Defect.noOperand c).describe = "expects at least one operand" := rfl
  have hcount : (Defect.operandCount qs.length).describe =
      "expects exactly one operand, got " ++ toString qs.length := rfl
  cases c with
  | and | or =>
    cases qs with
    | nil =>
      obtain rfl := List.length_eq_zero_iff.1 hlength.symm
      refine .inr ⟨_, rfl, .inl ?_⟩
      rw [hnone]
      exact .chain nofun
    | cons q qs =>
      refine .inl ⟨hsound fun operator message h => ?_, _, rfl⟩
      cases h
      cases hlength
  | not =>
    match qs with
    | [q] =>
      refine .inl ⟨hsound fun operator message h => ?_, _, rfl⟩
      cases h with
      | chain hc => exact hc rfl
      | not hnot => exact hnot hlength.symm
    | [] | _ :: _ :: _ =>
      have hnot : ns.length ≠ 1 := by
        rw [← hlength]
        simp
      refine .inr ⟨_, rfl, .inl ?_⟩
      rw [hcount, hlength]
      exact .not hnot

/-! ## Whole trees -/

mutual

theorem compile_cases : ∀ n : Node,
    ((∀ m ∈ n.conditions, Sound m) ∧ ∃ q, compile n = .ok q) ∨
      ∃ d, compile n = .error d ∧ FirstBlamed n.conditions d.operator d.describe
  | .property p => .inr ⟨_, rfl, .singleton (.inl (.property p))⟩
  | .literal l => .inr ⟨_, rfl, .singleton (.inl (.literal l))⟩
  | .comparison p op l =>
    (compile_comparison_cases p op l).imp
      (fun h => ⟨List.forall_mem_singleton.2 h.1, h.2⟩)
      fun ⟨d, hd, hblamed⟩ => ⟨d, hd, .singleton hblamed⟩
  | .function f ns =>
    (compile_function_cases f ns).imp
      (fun h => ⟨List.forall_mem_singleton.2 h.1, h.2⟩)
      fun ⟨d, hd, hblamed⟩ => ⟨d, hd, .singleton hblamed⟩
  | .logical c ns => by
    rw [compile, Node.conditions]
    rcases compileAll_cases ns with ⟨hns, qs, hqs, hlength⟩ | ⟨d, hd, hfirst⟩
    · rw [hqs]
      rcases connect_cases c hlength with ⟨hsound, hok⟩ | ⟨d, hd, hblamed⟩
      · exact .inl ⟨List.forall_mem_append.2 ⟨hns, List.forall_mem_singleton.2 hsound⟩, hok⟩
      · exact .inr ⟨d, hd, .behind hns (.singleton hblamed)⟩
    · rw [hd]
      exact .inr ⟨d, rfl, hfirst.append _⟩
  | .group n => by
    have hgroup : Sound (.group n) := by
      rintro operator message (h | h) <;> cases h
    rw [compile, Node.conditions]
    rcases compile_cases n with ⟨hn, hok⟩ | ⟨d, hd, hfirst⟩
    · exact .inl ⟨List.forall_mem_append.2 ⟨hn, List.forall_mem_singleton.2 hgroup⟩, hok⟩
    · exact .inr ⟨d, hd, hfirst.append _⟩

theorem compileAll_cases : ∀ ns : List Node,
    ((∀ m ∈ Node.conditionsAll ns, Sound m) ∧
        ∃ qs, compileAll ns = .ok qs ∧ qs.length = ns.length) ∨
      ∃ d, compileAll ns = .error d ∧ FirstBlamed (Node.conditionsAll ns) d.operator d.describe
  | [] => .inl ⟨nofun, [], rfl, rfl⟩
  | n :: ns => by
    rw [compileAll, Node.conditionsAll]
    rcases compile_cases n with ⟨hn, q, hq⟩ | ⟨d, hd, hfirst⟩
    · rw [hq]
      rcases compileAll_cases ns with ⟨hns, qs, hqs, hlength⟩ | ⟨d, hd, hfirst⟩
      · rw [hqs]
        exact .inl ⟨List.forall_mem_append.2 ⟨hn, hns⟩, q :: qs, rfl, congrArg (· + 1) hlength⟩
      · rw [hd]
        exact .inr ⟨d, rfl, .behind hn hfirst⟩
    · rw [hd]
      exact .inr ⟨d, rfl, hfirst.append _⟩

end

theorem compile_eq_error_iff {n : Node} :
    (∃ d, compile n = .error d) ↔
      ∃ m ∈ n.conditions, ∃ operator message, Blamed m operator message := by
  rcases compile_cases n with ⟨hsound, q, hq⟩ | ⟨d, hd, hfirst⟩
  · constructor
    · rintro ⟨d, hd⟩
      cases hq.symm.trans hd
    · rintro ⟨m, hm, operator, message, hblamed⟩
      exact absurd hblamed (hsound m hm operator message)
  · obtain ⟨m, hm, hblamed⟩ := hfirst.exists_blamed
    exact ⟨fun _ => ⟨m, hm, _, _, hblamed⟩, fun _ => ⟨d, hd⟩⟩

theorem firstBlamed_of_compile {n : Node} {d : Defect} (h : compile n = .error d) :
    FirstBlamed n.conditions d.operator d.describe := by
  rcases compile_cases n with ⟨-, q, hq⟩ | ⟨e, he, hfirst⟩
  · cases hq.symm.trans h
  · cases he.symm.trans h
    exact hfirst

theorem compileFilter_eq_error_iff {n : Node} {e : SearchError} :
    compileFilter (some n) = .error e ↔ ∃ d, compile n = .error d ∧ e = .unsupportedOperator d := by
  have hfilter : compileFilter (some n) =
      ((compile n).mapError .unsupportedOperator).map fun q => some q.toJson := rfl
  rw [hfilter]
  cases compile n with
  | ok q =>
    constructor
    · rintro ⟨⟩
    · rintro ⟨d, ⟨⟩, -⟩
  | error d =>
    constructor
    · rintro ⟨⟩
      exact ⟨d, rfl, rfl⟩
    · rintro ⟨d, ⟨⟩, rfl⟩
      rfl

/-! ## Null -/

/-- The query of a comparison on one object, where order and patterns make `onNull` of null. -/
def leafOr (onNull : Operator → Except Defect Clause) (field : String) (op : Operator)
    (value : Literal) : Except Defect Clause :=
  match value.text?, op with
  | some text, op => leaf field op value text
  | none, .eq => .ok (.term field value)
  | none, .ne => .ok (.no (.term field value))
  | none, op => onNull op

def comparisonOr (onNull : Operator → Except Defect Clause) (p : Property) (op : Operator)
    (value : Literal) : Except Defect Clause :=
  if value = .null then nullCheck p.name op
  else (leafOr onNull p.name op value).map (within p.nestedRoot?)

mutual

def compileOr (onNull : Operator → Except Defect Clause) : Node → Except Defect Clause
  | .property p => .error (.bareProperty p)
  | .literal l => .error (.bareLiteral l)
  | .comparison p op l => comparisonOr onNull p op l
  | .logical c ns => do connect c (← compileAllOr onNull ns)
  | .function f [.property p, .literal l] => comparisonOr onNull p f.operator l
  | .function f _ => .error (.arguments f)
  | .group n => compileOr onNull n

def compileAllOr (onNull : Operator → Except Defect Clause) :
    List Node → Except Defect (List Clause)
  | [] => .ok []
  | n :: ns => do
    let q ← compileOr onNull n
    let qs ← compileAllOr onNull ns
    .ok (q :: qs)

end

section
variable (onNull : Operator → Except Defect Clause)

theorem comparisonOr_eq (p : Property) (op : Operator) (l : Literal) :
    comparisonOr onNull p op l = comparison p op l := by
  cases l with
  | null => rfl
  | string | number | boolean => rfl

mutual

theorem compileOr_eq : ∀ n : Node, compileOr onNull n = compile n
  | .property _ | .literal _ => rfl
  | .comparison p op l => comparisonOr_eq onNull p op l
  | .logical c ns => by rw [compileOr, compile, compileAllOr_eq ns]
  | .function f ns => by
    rcases arguments_cases ns with ⟨p, l, rfl⟩ | hother
    · exact comparisonOr_eq onNull p f.operator l
    · rw [compileOr, compile]
      · exact hother
      · exact hother
  | .group n => by rw [compileOr, compile, compileOr_eq n]

theorem compileAllOr_eq : ∀ ns : List Node, compileAllOr onNull ns = compileAll ns
  | [] => rfl
  | n :: ns => by rw [compileAllOr, compileAll, compileOr_eq n, compileAllOr_eq ns]

end

end

/-! ## Filters that have been read -/

theorem not_misshapen_of_canonical {n : Node} (h : n.Canonical) :
    ∀ m ∈ n.conditions, ∀ operator message, ¬Misshapen m operator message := by
  have hall {ns : List Node} (hns : ∀ n ∈ ns, ∀ m ∈ n.conditions, ∀ operator message,
      ¬Misshapen m operator message) :
      ∀ m ∈ Node.conditionsAll ns, ∀ operator message, ¬Misshapen m operator message := by
    induction ns with
    | nil => exact nofun
    | cons n ns ih =>
      obtain ⟨hn, hbehind⟩ := List.forall_mem_cons.1 hns
      exact List.forall_mem_append.2 ⟨hn, ih hbehind⟩
  have hchain {c : Connective} {ns : List Node} (hc : c ≠ .not) (hlength : 2 ≤ ns.length)
      (operator message : String) : ¬Misshapen (.logical c ns) operator message := by
    intro hshape
    cases hshape with
    | chain => exact absurd hlength (by decide)
    | not => exact hc rfl
  induction h with
  | comparison =>
    refine List.forall_mem_singleton.2 fun operator message hshape => ?_
    cases hshape
  | @function f p l =>
    refine List.forall_mem_singleton.2 fun operator message hshape => ?_
    cases hshape with
    | function hother => exact hother p l rfl
  | group _ ih =>
    refine List.forall_mem_append.2 ⟨ih, List.forall_mem_singleton.2 fun operator message h => ?_⟩
    cases h
  | not _ _ ih =>
    rw [Node.conditions]
    refine List.forall_mem_append.2 ⟨hall (List.forall_mem_singleton.2 ih), ?_⟩
    refine List.forall_mem_singleton.2 fun operator message hshape => ?_
    cases hshape with
    | not hnot => exact hnot rfl
  | and hlength _ _ ih | or hlength _ _ ih =>
    rw [Node.conditions]
    exact List.forall_mem_append.2
      ⟨hall ih, List.forall_mem_singleton.2 (hchain nofun hlength)⟩

/-- Compilation fails exactly for trees with a defect, of which it reports the first. It never asks
for the order or the pattern of null, and of a filter that has been read only a value can be at
fault. -/
theorem compile_blames_first_defect (n : Node) :
    ((∃ e, compileFilter (some n) = .error e) ↔
        ∃ m ∈ n.conditions, ∃ operator message, Blamed m operator message) ∧
      (∀ e, compileFilter (some n) = .error e → ∃ d, e = .unsupportedOperator d ∧
        FirstBlamed n.conditions d.operator d.describe) ∧
      (∀ onNull, compileOr onNull n = compile n) ∧
      ∀ input, parse input = .ok n → ∀ m ∈ n.conditions, ∀ operator message,
        Blamed m operator message → Misapplied m operator message := by
  refine ⟨?_, ?_, fun onNull => compileOr_eq onNull n, ?_⟩
  · rw [← compile_eq_error_iff]
    constructor
    · rintro ⟨e, he⟩
      obtain ⟨d, hd, -⟩ := compileFilter_eq_error_iff.1 he
      exact ⟨d, hd⟩
    · rintro ⟨d, hd⟩
      exact ⟨_, compileFilter_eq_error_iff.2 ⟨d, hd, rfl⟩⟩
  · intro e he
    obtain ⟨d, hd, rfl⟩ := compileFilter_eq_error_iff.1 he
    exact ⟨d, rfl, firstBlamed_of_compile hd⟩
  · intro input hparse m hm operator message hblamed
    have hcanonical := (canonical_of_parse hparse).1
    exact hblamed.resolve_left (not_misshapen_of_canonical hcanonical m hm operator message)

/-- Of two values without an order or a text, the one further left is reported. -/
theorem compile_blames_first_defect_of_two :
    let n : Node := .logical .or [.logical .not [.group (.comparison ⟨"a"⟩ .gt (.boolean true))],
      .call .contains ⟨"b"⟩ .null]
    parse "not (a gt true) or contains(b, null)" = .ok n ∧
      (∃ d, compileFilter (some n) = .error (.unsupportedOperator d) ∧ d.operator = "gt" ∧
        FirstBlamed n.conditions d.operator d.describe) ∧
      ∀ m ∈ n.conditions, ∀ operator message, Blamed m operator message →
        Misapplied m operator message := by
  intro n
  have hparse : parse "not (a gt true) or contains(b, null)" = .ok n := by cbv
  have hcompile : compileFilter (some n) =
      .error (.unsupportedOperator (.unorderedBound .gt (.boolean true))) := rfl
  obtain ⟨-, hfirst, -, hread⟩ := compile_blames_first_defect n
  obtain ⟨d, hd, hblamed⟩ := hfirst _ hcompile
  cases hd
  exact ⟨hparse, ⟨_, hcompile, rfl, hblamed⟩, hread _ hparse⟩

end Query

end FilterQuery
