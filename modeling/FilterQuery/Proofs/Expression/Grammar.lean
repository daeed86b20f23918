import FilterQuery.Expression.Parser
import FilterQuery.Proofs.Fallible

/-! The grammar of filters, as a relation between lists of tokens and trees. It says nothing of how
deep a filter may be nested, which `Node.nesting` counts on the tree. -/

namespace FilterQuery.Expression

mutual

/-- The most `not`s and groups that are open at once in the text of a tree. -/
def Node.nesting : Node → Nat
  | .property _ | .literal _ | .comparison _ _ _ => 0
  | .logical .not ns => nestingAll ns + 1
  | .logical _ ns | .function _ ns => nestingAll ns
  | .group n => n.nesting + 1

def Node.nestingAll : List Node → Nat
  | [] => 0
  | n :: ns => max n.nesting (nestingAll ns)

end

namespace Grammar

def IsFunction (t : Token) (f : FunctionName) : Prop :=
  t.kind = .functionName ∧ Text.foldCase t.text = f.spelling

/-- Between a property and a literal a function name is an operator too. -/
inductive IsOperator (t : Token) : Operator → Prop where
  | comparison {op : Operator} : t.kind = .comparisonOperator →
      (Text.foldCase t.text = op.spelling ∨ op.symbol? = some (Text.foldCase t.text)) →
      IsOperator t op
  | function {f : FunctionName} : IsFunction t f → IsOperator t f.operator

/-- The value of a literal. Digits without a point are a whole number that 64 bits hold, digits with
one the nearest binary64 number, which has to be finite. -/
inductive IsLiteral (t : Token) : Literal → Prop where
  | null : t.kind = .nullLiteral → IsLiteral t .null
  | boolean {b : Bool} : t.kind = .booleanLiteral → Text.foldCase t.text = toString b →
      IsLiteral t (.boolean b)
  | string {s : String} : t.kind = .stringLiteral →
      t.text.toList = '\'' :: doubleQuotes s.toList ++ ['\''] → IsLiteral t (.string s)
  | int {v : Int} (fits : -2 ^ 63 ≤ v ∧ v < 2 ^ 64) : t.kind = .numberLiteral →
      '.' ∉ t.text.toList → Decimal.readInt? t.text.toList = some v →
      IsLiteral t (.number (.int v fits))
  | float {x : Decimal.Binary64} : t.kind = .numberLiteral → '.' ∈ t.text.toList →
      Decimal.Binary64.ofText? t.text.toList = some x → IsLiteral t (.number (.float x))

mutual

inductive Primary : List Token → Node → Prop where
  | comparison {p o v : Token} {op : Operator} {l : Literal} : p.kind = .identifier →
      IsOperator o op → IsLiteral v l → Primary [p, o, v] (.comparison ⟨p.text⟩ op l)
  | call {f opening p comma v closing : Token} {name : FunctionName} {l : Literal} :
      IsFunction f name → opening.kind = .leftParen → p.kind = .identifier →
      comma.kind = .comma → IsLiteral v l → closing.kind = .rightParen →
      Primary [f, opening, p, comma, v, closing] (.call name ⟨p.text⟩ l)
  | group {opening closing : Token} {ts : List Token} {n : Node} : opening.kind = .leftParen →
      Disjunction ts n → closing.kind = .rightParen →
      Primary (opening :: ts ++ [closing]) (.group n)

inductive Operand : List Token → Node → Prop where
  | plain {ts : List Token} {n : Node} : Primary ts n → Operand ts n
  | not {t : Token} {ts : List Token} {n : Node} : t.kind = .not → Primary ts n →
      Operand (t :: ts) (.logical .not [n])

inductive Conjuncts : List Token → List Node → Prop where
  | one {ts : List Token} {n : Node} : Operand ts n → Conjuncts ts [n]
  | and {t : Token} {ts us : List Token} {n : Node} {ns : List Node} : Operand ts n →
      t.kind = .and → Conjuncts us ns → Conjuncts (ts ++ t :: us) (n :: ns)

/-- Conjunctions joined by `or`, in order. One that is a single operand is that operand. -/
inductive Disjuncts : List Token → List Node → Prop where
  | one {ts : List Token} {ns : List Node} : Conjuncts ts ns → Disjuncts ts [.chain .and ns]
  | or {t : Token} {ts us : List Token} {ns ms : List Node} : Conjuncts ts ns →
      t.kind = .or → Disjuncts us ms → Disjuncts (ts ++ t :: us) (.chain .and ns :: ms)

inductive Disjunction : List Token → Node → Prop where
  | mk {ts : List Token} {ns : List Node} : Disjuncts ts ns → Disjunction ts (.chain .or ns)

end

theorem isFunction_iff {t : Token} {f : FunctionName} :
    IsFunction t f ↔ t.kind = .functionName ∧ FunctionName.ofText? t.text = some f := by
  unfold FunctionName.ofText?
  refine and_congr_right fun _ => ⟨fun h => ?_, fun h => ?_⟩
  · rw [h]
    cases f <;> decide
  · have hname := List.find?_some h
    exact (of_decide_eq_true hname).symm

theorem ofText?_eq_some_iff {text : String} {op : Operator} : Operator.ofText? text = some op ↔
    Text.foldCase text = op.spelling ∨ op.symbol? = some (Text.foldCase text) := by
  have hlisted : ∀ e ∈ Operator.spellings, Operator.spellings.lookup e.1 = some e.2 := by decide
  rw [← Operator.mem_spellings_iff]
  exact ⟨Fallible.mem_of_lookup_eq_some, hlisted _⟩

theorem isOperator_iff {t : Token} {op : Operator} :
    IsOperator t op ↔ Parser.operator? t = some op := by
  unfold Parser.operator?
  constructor
  · rintro (⟨hkind, hspelled⟩ | hf)
    · rw [hkind]
      exact ofText?_eq_some_iff.2 hspelled
    · obtain ⟨hkind, hname⟩ := isFunction_iff.1 hf
      rw [hkind, hname]
      rfl
  · intro h
    split at h
    · next hkind => exact .comparison hkind (ofText?_eq_some_iff.1 h)
    · next hkind =>
      obtain ⟨f, hf, rfl⟩ := Option.map_eq_some_iff.1 h
      exact .function (isFunction_iff.2 ⟨hkind, hf⟩)
    · cases h

theorem unquote_of_quoted {text : String} {cs : List Char}
    (h : text.toList = '\'' :: doubleQuotes cs ++ ['\'']) : Parser.unquote text = .ofList cs := by
  unfold Parser.unquote
  rw [h]
  simp [singleQuotes_doubleQuotes]

theorem IsLiteral.literal_eq {t : Token} {l : Literal} (h : IsLiteral t l) :
    Parser.literal t = .ok l := by
  unfold Parser.literal
  cases h with
  | null hkind => rw [hkind]
  | boolean hkind hb =>
    rename_i b
    rw [hkind, hb]
    cases b <;> rfl
  | string hkind hs =>
    rw [hkind, unquote_of_quoted hs, String.ofList_toList]
  | int fits hkind hpoint hv =>
    rw [hkind, Parser.number?, if_neg (by simpa using hpoint), hv, Option.bind_some,
      Number.ofInt?_eq_some_iff.2 ⟨fits, rfl⟩]
  | float hkind hpoint hx =>
    rw [hkind, Parser.number?, if_pos (by simpa using hpoint), hx, Option.map_some]

theorem IsFunction.unique {t : Token} {f g : FunctionName} (hf : IsFunction t f)
    (hg : IsFunction t g) : f = g :=
  Option.some.inj ((isFunction_iff.1 hf).2.symm.trans (isFunction_iff.1 hg).2)

theorem IsOperator.unique {t : Token} {op op' : Operator} (h : IsOperator t op)
    (h' : IsOperator t op') : op = op' :=
  Option.some.inj ((isOperator_iff.1 h).symm.trans (isOperator_iff.1 h'))

theorem IsLiteral.unique {t : Token} {l l' : Literal} (h : IsLiteral t l) (h' : IsLiteral t l') :
    l = l' :=
  Except.ok.inj (h.literal_eq.symm.trans h'.literal_eq)

/-! Two readings of one list of tokens agree. What is shown is that two derivations which begin at
the same place also end there, where what follows cannot go on with a chain. -/

def NotAhead (kind : TokenKind) (ts : List Token) : Prop := ∀ t ∈ ts.head?, t.kind ≠ kind

theorem notAhead_cons {kind : TokenKind} {t : Token} {ts : List Token} :
    NotAhead kind (t :: ts) ↔ t.kind ≠ kind := by
  simp only [NotAhead, List.head?_cons, Option.mem_some, forall_eq']

theorem notAhead_of_kind {kind other : TokenKind} {t : Token} {ts : List Token}
    (h : t.kind = other) (hne : other ≠ kind) : NotAhead kind (t :: ts) :=
  notAhead_cons.2 (h ▸ hne)

theorem kind_eq_of_cons_eq {t u : Token} {ts us : List Token} {kind other : TokenKind}
    (h : t :: ts = u :: us) (ht : t.kind = kind) (hu : u.kind = other) : kind = other := by
  rw [← ht, ← hu, (List.cons.inj h).1]

theorem Primary.notAhead_not {ts r : List Token} {n : Node} (h : Primary ts n) :
    NotAhead .not (ts ++ r) := by
  cases h with
  | comparison hp => exact notAhead_of_kind hp nofun
  | call hf => exact notAhead_of_kind hf.1 nofun
  | group ho => exact notAhead_of_kind ho nofun

mutual

theorem Primary.unique {ts us r r' : List Token} {n m : Node} (h : Primary ts n)
    (h' : Primary us m) (hcat : ts ++ r = us ++ r') : ts = us ∧ n = m := by
  match h, h' with
  | .comparison hp ho hv, .comparison hp' ho' hv' =>
    obtain ⟨rfl, rfl, rfl, -⟩ := by simpa using hcat
    exact ⟨rfl, by rw [ho.unique ho', hv.unique hv']⟩
  | .call hf _ _ _ hv _, .call hf' _ _ _ hv' _ =>
    obtain ⟨rfl, rfl, rfl, rfl, rfl, rfl, -⟩ := by simpa using hcat
    exact ⟨rfl, by rw [hf.unique hf', hv.unique hv']⟩
  | .group ho he hc, .group ho' he' hc' =>
    simp only [List.cons_append, List.append_assoc, List.cons.injEq] at hcat
    obtain ⟨rfl, hcat⟩ := hcat
    -- Neither expression can go on with the parenthesis at which the other one ends.
    obtain ⟨rfl, rfl⟩ := he.unique he' hcat
      ⟨notAhead_of_kind hc nofun, notAhead_of_kind hc nofun⟩
      ⟨notAhead_of_kind hc' nofun, notAhead_of_kind hc' nofun⟩
    obtain ⟨rfl, -⟩ := by simpa using hcat
    exact ⟨rfl, rfl⟩
  | .comparison hp .., .call hp' .. => exact nomatch kind_eq_of_cons_eq hcat hp hp'.1
  | .comparison hp .., .group hp' .. => exact nomatch kind_eq_of_cons_eq hcat hp hp'
  | .call hp .., .comparison hp' .. => exact nomatch kind_eq_of_cons_eq hcat hp.1 hp'
  | .call hp .., .group hp' .. => exact nomatch kind_eq_of_cons_eq hcat hp.1 hp'
  | .group hp .., .comparison hp' .. => exact nomatch kind_eq_of_cons_eq hcat hp hp'
  | .group hp .., .call hp' .. => exact nomatch kind_eq_of_cons_eq hcat hp hp'.1
termination_by structural h

theorem Operand.unique {ts us r r' : List Token} {n m : Node} (h : Operand ts n)
    (h' : Operand us m) (hcat : ts ++ r = us ++ r') : ts = us ∧ n = m := by
  match h, h' with
  | .plain h, .plain h' => exact h.unique h' hcat
  | .not ht h, .not ht' h' =>
    obtain ⟨rfl, htail⟩ := List.cons.inj hcat
    obtain ⟨rfl, rfl⟩ := h.unique h' htail
    exact ⟨rfl, rfl⟩
  | .plain h, .not ht' _ => exact absurd ht' (notAhead_cons.1 (hcat ▸ h.notAhead_not))
  | .not ht _, .plain h' => exact absurd ht (notAhead_cons.1 (hcat ▸ h'.notAhead_not))
termination_by structural h

theorem Conjuncts.unique {ts us r r' : List Token} {ns ms : List Node} (h : Conjuncts ts ns)
    (h' : Conjuncts us ms) (hcat : ts ++ r = us ++ r') (hr : NotAhead .and r)
    (hr' : NotAhead .and r') : ts = us ∧ ns = ms := by
  match h, h' with
  | .one h, .one h' =>
    obtain ⟨rfl, rfl⟩ := h.unique h' hcat
    exact ⟨rfl, rfl⟩
  | .and h ht hs, .and h' ht' hs' =>
    rw [List.append_assoc, List.append_assoc] at hcat
    obtain ⟨rfl, rfl⟩ := h.unique h' hcat
    obtain ⟨rfl, htail⟩ := List.cons.inj (List.append_cancel_left hcat)
    obtain ⟨rfl, rfl⟩ := hs.unique hs' htail hr hr'
    exact ⟨rfl, rfl⟩
  -- If only one chain goes on here, then what is left of the other starts with an `and`.
  | .one h, .and h' ht' _ =>
    rw [List.append_assoc] at hcat
    obtain ⟨rfl, rfl⟩ := h.unique h' hcat
    exact absurd ht' (notAhead_cons.1 (List.append_cancel_left hcat ▸ hr))
  | .and h ht _, .one h' =>
    rw [List.append_assoc] at hcat
    obtain ⟨rfl, rfl⟩ := h.unique h' hcat
    exact absurd ht (notAhead_cons.1 (List.append_cancel_left hcat ▸ hr'))
termination_by structural h

theorem Disjuncts.unique {ts us r r' : List Token} {ns ms : List Node} (h : Disjuncts ts ns)
    (h' : Disjuncts us ms) (hcat : ts ++ r = us ++ r') (hr : NotAhead .and r ∧ NotAhead .or r)
    (hr' : NotAhead .and r' ∧ NotAhead .or r') : ts = us ∧ ns = ms := by
  match h, h' with
  | .one h, .one h' =>
    obtain ⟨rfl, rfl⟩ := h.unique h' hcat hr.1 hr'.1
    exact ⟨rfl, rfl⟩
  | .or h ht hs, .or h' ht' hs' =>
    rw [List.append_assoc, List.append_assoc] at hcat
    obtain ⟨rfl, rfl⟩ := h.unique h' hcat (notAhead_of_kind ht nofun) (notAhead_of_kind ht' nofun)
    obtain ⟨rfl, htail⟩ := List.cons.inj (List.append_cancel_left hcat)
    obtain ⟨rfl, rfl⟩ := hs.unique hs' htail hr hr'
    exact ⟨rfl, rfl⟩
  | .one h, .or h' ht' _ =>
    rw [List.append_assoc] at hcat
    obtain ⟨rfl, rfl⟩ := h.unique h' hcat hr.1 (notAhead_of_kind ht' nofun)
    exact absurd ht' (notAhead_cons.1 (List.append_cancel_left hcat ▸ hr.2))
  | .or h ht _, .one h' =>
    rw [List.append_assoc] at hcat
    obtain ⟨rfl, rfl⟩ := h.unique h' hcat (notAhead_of_kind ht nofun) hr'.1
    exact absurd ht (notAhead_cons.1 (List.append_cancel_left hcat ▸ hr'.2))
termination_by structural h

theorem Disjunction.unique {ts us r r' : List Token} {n m : Node} (h : Disjunction ts n)
    (h' : Disjunction us m) (hcat : ts ++ r = us ++ r') (hr : NotAhead .and r ∧ NotAhead .or r)
    (hr' : NotAhead .and r' ∧ NotAhead .or r') : ts = us ∧ n = m := by
  match h, h' with
  | .mk h, .mk h' =>
    obtain ⟨rfl, rfl⟩ := h.unique h' hcat hr hr'
    exact ⟨rfl, rfl⟩
termination_by structural h

end

end Grammar

end FilterQuery.Expression
