import FilterQuery.Proofs.Expression.Parsed
import FilterQuery.Proofs.Query.Lists
import FilterQuery.Proofs.Query.Matching
import FilterQuery.Proofs.Query.Meaning

/-! Which filters have the same query: those that are the same but for their spelling, and no
others. What the spelling leaves open is taken away by `Reduces`, and the rest can be read off the
query. -/

namespace FilterQuery.Query

open Expression Fallible

/-! ## Filters without their spelling -/

/-- What a property is compared with, as far as the operator tells values apart. -/
inductive Operand where
  | value (l : Literal)
  | text (s : String)
  | entries (ss : List String)

inductive Reduced where
  | comparison (property : Property) (operator : Operator) (operand : Operand)
  | logical (connective : Connective) (operands : List Reduced)

/-- That an operator tells a literal from others by this operand: patterns by its text, and lists by
the values in that. -/
def Compares (op : Operator) (l : Literal) (v : Operand) : Prop :=
  match op with
  | .eq | .ne | .gt | .ge | .lt | .le => v = .value l
  | .contains | .startsWith | .endsWith | .like | .notLike =>
    ∃ text, l.text? = some text ∧ v = .text text
  | .oneOf | .noneOf => ∃ text values, l.text? = some text ∧ Lists values text ∧ v = .entries values

def denied? : Operator → Option Operator
  | .ne => some .eq
  | .notLike => some .like
  | .noneOf => some .oneOf
  | _ => none

/-- Absence denies presence. Other denials are a `not` as well, if they do not stand within a nested
object. -/
inductive ReducesComparison (p : Property) : Operator → Literal → Reduced → Prop where
  | absence : ReducesComparison p .eq .null (.logical .not [.comparison p .ne (.value .null)])
  | presence : ReducesComparison p .ne .null (.comparison p .ne (.value .null))
  | denial {op op' : Operator} {l : Literal} {v : Operand} : l ≠ .null → denied? op = some op' →
      '.' ∉ p.name.toList → Compares op l v →
      ReducesComparison p op l (.logical .not [.comparison p op' v])
  | other {op : Operator} {l : Literal} {v : Operand} : l ≠ .null →
      (denied? op = none ∨ '.' ∈ p.name.toList) → Compares op l v →
      ReducesComparison p op l (.comparison p op v)

mutual

/-- What a filter is but for its spelling. -/
inductive Reduces : Node → Reduced → Prop where
  | comparison {p : Property} {op : Operator} {l : Literal} {t : Reduced} :
      ReducesComparison p op l t → Reduces (.comparison p op l) t
  | call {f : FunctionName} {p : Property} {l : Literal} {t : Reduced} :
      ReducesComparison p f.operator l t → Reduces (.function f [.property p, .literal l]) t
  | logical {c : Connective} {ns : List Node} {ts : List Reduced} :
      ReducesAll ns ts → Reduces (.logical c ns) (.logical c ts)
  | group {n : Node} {t : Reduced} : Reduces n t → Reduces (.group n) t

inductive ReducesAll : List Node → List Reduced → Prop where
  | nil : ReducesAll [] []
  | cons {n : Node} {t : Reduced} {ns : List Node} {ts : List Reduced} :
      Reduces n t → ReducesAll ns ts → ReducesAll (n :: ns) (t :: ts)

end

theorem exists_compares {l : Literal} {text : String} (op : Operator) (h : l.text? = some text) :
    ∃ v, Compares op l v := by
  cases op with
  | eq | ne | gt | ge | lt | le => exact ⟨_, rfl⟩
  | contains | startsWith | endsWith | like | notLike => exact ⟨_, text, h, rfl⟩
  | oneOf | noneOf => exact ⟨_, text, listed text, h, lists_iff.2 rfl, rfl⟩

theorem exists_reducesComparison {p : Property} {op : Operator} {l : Literal} {q : Clause}
    (h : comparison p op l = .ok q) : ∃ t, ReducesComparison p op l t := by
  by_cases hl : l = .null
  · subst hl
    cases op with
    | eq => exact ⟨_, .absence⟩
    | ne => exact ⟨_, .presence⟩
    | _ => cases h
  · obtain ⟨text, htext⟩ := Literal.exists_text?_eq_some hl
    obtain ⟨v, hv⟩ := exists_compares op htext
    by_cases hdot : '.' ∈ p.name.toList
    · exact ⟨_, .other hl (.inr hdot) hv⟩
    · cases hop : denied? op with
      | none => exact ⟨_, .other hl (.inl hop) hv⟩
      | some op' => exact ⟨_, .denial hl hop hdot hv⟩

theorem exists_reducesAll {ns : List Node} {qs : List Clause} (h : compileAll ns = .ok qs)
    (hns : ∀ n ∈ ns, ∀ q, compile n = .ok q → ∃ t, Reduces n t) : ∃ ts, ReducesAll ns ts := by
  induction ns generalizing qs with
  | nil => exact ⟨[], .nil⟩
  | cons n ns ih =>
    obtain ⟨q, rest, hq, hrest, -⟩ := compileAll_cons_eq_ok_iff.1 h
    obtain ⟨hfirst, hbehind⟩ := List.forall_mem_cons.1 hns
    obtain ⟨t, ht⟩ := hfirst q hq
    obtain ⟨ts, hts⟩ := ih hrest hbehind
    exact ⟨t :: ts, .cons ht hts⟩

theorem exists_reduces_logical {c : Connective} {ns : List Node} {q : Clause}
    (h : compile (.logical c ns) = .ok q)
    (hns : ∀ n ∈ ns, ∀ q, compile n = .ok q → ∃ t, Reduces n t) :
    ∃ t, Reduces (.logical c ns) t := by
  obtain ⟨qs, hqs, -⟩ := compile_logical_eq_ok_iff.1 h
  obtain ⟨ts, hts⟩ := exists_reducesAll hqs hns
  exact ⟨.logical c ts, .logical hts⟩

theorem exists_reduces_of_compile {n : Node} {q : Clause} (hn : n.Canonical)
    (h : compile n = .ok q) : ∃ t, Reduces n t := by
  induction hn generalizing q with
  | comparison _ =>
    obtain ⟨t, ht⟩ := exists_reducesComparison h
    exact ⟨t, .comparison ht⟩
  | function _ =>
    obtain ⟨t, ht⟩ := exists_reducesComparison h
    exact ⟨t, .call ht⟩
  | group _ ih =>
    obtain ⟨t, ht⟩ := ih h
    exact ⟨t, .group ht⟩
  | not _ _ ih => exact exists_reduces_logical h (List.forall_mem_singleton.2 fun _ => ih)
  | and _ _ _ ih | or _ _ _ ih => exact exists_reduces_logical h fun n hn _ => ih n hn

/-! ## Queries are told apart by their JSON -/

theorem bound_eq_of_key_eq {b b' : Bound} (h : b.key = b'.key) : b = b' := by
  revert h
  cases b <;> cases b' <;> decide

theorem texts_eq_of_strings_eq {ss ts : List String} (h : Json.strings ss = Json.strings ts) :
    ss = ts :=
  (List.map_inj_right fun _ _ => Json.string.inj).1 (Json.array.inj h)

mutual

theorem clause_eq_of_toJson_eq : ∀ {q r : Clause}, q.toJson = r.toJson → q = r
  | .term f v, r, h => by
    cases r <;> simp [Clause.toJson, Json.single] at h
    next f' v' => rw [h.1, Literal.toJson_injective h.2]
  | .terms f vs, r, h => by
    cases r <;> simp [Clause.toJson, Json.single] at h
    next f' vs' => rw [h.1, texts_eq_of_strings_eq h.2]
  | .range f b v, r, h => by
    cases r <;> simp [Clause.toJson, Json.single] at h
    next f' b' v' => rw [h.1, bound_eq_of_key_eq h.2.1, Literal.toJson_injective h.2.2]
  | .wildcard f p anyCase, r, h => by
    cases r <;> simp [Clause.toJson, Json.single] at h
    next f' p' anyCase' => cases anyCase <;> cases anyCase' <;> simp_all
  | .startsWith f t, r, h => by
    cases r <;> simp [Clause.toJson, Json.single] at h
    next f' t' => rw [h.1, h.2]
  | .present f, r, h => by
    cases r <;> simp [Clause.toJson, Json.single] at h
    next f' => rw [h]
  | .nested path q, r, h => by
    cases r <;> simp [Clause.toJson, Json.single] at h
    next path' q' => rw [h.1, clause_eq_of_toJson_eq h.2]
  | .every qs, r, h => by
    cases r <;> simp [Clause.toJson, Json.single] at h
    next qs' => rw [clauses_eq_of_toJsons_eq h]
  | .some qs, r, h => by
    cases r <;> simp [Clause.toJson, Json.single] at h
    next qs' => rw [clauses_eq_of_toJsons_eq h]
  | .no q, r, h => by
    cases r <;> simp [Clause.toJson, Json.single] at h
    next q' => rw [clause_eq_of_toJson_eq h]

theorem clauses_eq_of_toJsons_eq : ∀ {qs rs : List Clause},
    Clause.toJsons qs = Clause.toJsons rs → qs = rs
  | [], rs, h => by
    cases rs with
    | nil => rfl
    | cons => cases h
  | q :: qs, rs, h => by
    cases rs with
    | nil => cases h
    | cons r rs =>
      rw [Clause.toJsons, Clause.toJsons, List.cons.injEq] at h
      rw [clause_eq_of_toJson_eq h.1, clauses_eq_of_toJsons_eq h.2]

end

/-! ## Reduced filters and queries -/

/-- What an escaped text stands for, and whether a star comes behind it. -/
def Pattern.unescape : List Char → List Char × Bool
  | [] => ([], false)
  | '*' :: _ => ([], true)
  | '\\' :: c :: cs => (c :: (unescape cs).1, (unescape cs).2)
  | c :: cs => (c :: (unescape cs).1, (unescape cs).2)

theorem Pattern.unescape_escapeChar (c : Char) (cs : List Char) :
    unescape (escapeChar c ++ cs) = (c :: (unescape cs).1, (unescape cs).2) := by
  unfold escapeChar
  split
  · rfl
  · next hc =>
    simp [isSpecial] at hc
    rw [List.singleton_append, unescape] <;> simp_all

theorem Pattern.unescape_escape_append (v cs : List Char) :
    unescape (escape v ++ cs) = (v ++ (unescape cs).1, (unescape cs).2) := by
  induction v with
  | nil => rfl
  | cons c v ih => rw [escape_cons, List.append_assoc, unescape_escapeChar, ih, List.cons_append]

def Bound.operator : Bound → Operator
  | .above => .gt
  | .atLeast => .ge
  | .below => .lt
  | .atMost => .le

def Reduced.denial : Reduced → Reduced
  | .comparison p .eq v => .comparison p .ne v
  | .comparison p .like v => .comparison p .notLike v
  | .comparison p .oneOf v => .comparison p .noneOf v
  | r => r

mutual

def Reduced.ofClause : Clause → Reduced
  | .term f v => .comparison ⟨f⟩ .eq (.value v)
  | .terms f vs => .comparison ⟨f⟩ .oneOf (.entries vs)
  | .range f b v => .comparison ⟨f⟩ b.operator (.value v)
  | .wildcard f pattern anyCase =>
    let (text, isOpen) := Pattern.unescape (pattern.toList.drop 1)
    let op := if anyCase then .like else if isOpen then .contains else .endsWith
    .comparison ⟨f⟩ op (.text (.ofList text))
  | .startsWith f text => .comparison ⟨f⟩ .startsWith (.text text)
  | .present f => .comparison ⟨f⟩ .ne (.value .null)
  | .nested _ (.no q) => (ofClause q).denial
  | .nested _ q => ofClause q
  | .every qs => .logical .and (ofClauses qs)
  | .some qs => .logical .or (ofClauses qs)
  | .no q => .logical .not [ofClause q]

def Reduced.ofClauses : List Clause → List Reduced
  | [] => []
  | q :: qs => ofClause q :: ofClauses qs

end

def leafOf (f : String) : Operator → Operand → Clause
  | .eq, .value l => .term f l
  | .ne, .value l => .no (.term f l)
  | .gt, .value l => .range f .above l
  | .ge, .value l => .range f .atLeast l
  | .lt, .value l => .range f .below l
  | .le, .value l => .range f .atMost l
  | .contains, .text s => .wildcard f (Pattern.containing s) false
  | .startsWith, .text s => .startsWith f s
  | .endsWith, .text s => .wildcard f (Pattern.ending s) false
  | .like, .text s => .wildcard f (Pattern.containing s) true
  | .notLike, .text s => .no (.wildcard f (Pattern.containing s) true)
  | .oneOf, .entries ss => .terms f ss
  | .noneOf, .entries ss => .no (.terms f ss)
  | _, _ => .every []

mutual

def Reduced.toClause : Reduced → Clause
  | .comparison p .ne (.value .null) => .present p.name
  | .comparison p op v => within p.nestedRoot? (leafOf p.name op v)
  | .logical .not [r] => .no (toClause r)
  | .logical .or rs => .some (toClauses rs)
  | .logical _ rs => .every (toClauses rs)

def Reduced.toClauses : List Reduced → List Clause
  | [] => []
  | r :: rs => toClause r :: toClauses rs

end

/-- That a reduced filter and a query can be had from one another. -/
structure Belongs (r : Reduced) (q : Clause) : Prop where
  ofClause_eq : Reduced.ofClause q = r
  toClause_eq : r.toClause = q

theorem nestedRoot?_eq_none_iff_of_named {p : Property} (h : p.Named) :
    p.nestedRoot? = none ↔ '.' ∉ p.name.toList := by
  obtain ⟨c, cs, hname, hc, -⟩ := exists_word_of_named h
  have hdot : c ≠ '.' := by
    rintro rfl
    exact absurd hc (by decide)
  have hroot : p.name.toList.takeWhile (· ≠ '.') = c :: cs.takeWhile (· ≠ '.') := by
    rw [hname, List.takeWhile_cons, if_pos (decide_eq_true hdot)]
  unfold Property.nestedRoot? Property.isDotted
  rw [hroot]
  simp

theorem ofClause_containing (f v : String) (anyCase : Bool) :
    Reduced.ofClause (.wildcard f (Pattern.containing v) anyCase) =
      .comparison ⟨f⟩ (if anyCase then .like else .contains) (.text v) := by
  simp [Reduced.ofClause, Pattern.containing, Pattern.unescape_escape_append, Pattern.unescape]

theorem ofClause_ending (f v : String) :
    Reduced.ofClause (.wildcard f (Pattern.ending v) false) =
      .comparison ⟨f⟩ .endsWith (.text v) := by
  have h := Pattern.unescape_escape_append v.toList []
  rw [List.append_nil] at h
  simp [Reduced.ofClause, Pattern.ending, h, Pattern.unescape]

section
variable {f text : String} {op op' : Operator} {l : Literal} {v : Operand}

theorem eq_leafOf_of_leaf {q : Clause} (hv : Compares op l v) (htext : l.text? = some text)
    (h : leaf f op l text = .ok q) : q = leafOf f op v := by
  cases op with
  | gt | ge | lt | le =>
    obtain rfl : v = .value l := hv
    exact eq_range_of_ok h
  | eq | ne =>
    obtain rfl : v = .value l := hv
    exact (Except.ok.inj h).symm
  | contains | startsWith | endsWith | like | notLike =>
    obtain ⟨s, hs, rfl⟩ := hv
    obtain rfl := Option.some.inj (htext.symm.trans hs)
    exact (Except.ok.inj h).symm
  | oneOf | noneOf =>
    obtain ⟨s, values, hs, hvalues, rfl⟩ := hv
    obtain rfl := Option.some.inj (htext.symm.trans hs)
    obtain rfl := lists_iff.1 hvalues
    exact (Except.ok.inj h).symm

theorem ofClause_leafOf (f : String) (hv : Compares op l v) (hop : denied? op = none) :
    Reduced.ofClause (leafOf f op v) = .comparison ⟨f⟩ op v := by
  cases op with
  | ne | notLike | noneOf => cases hop
  | eq | gt | ge | lt | le =>
    obtain rfl : v = .value l := hv
    rfl
  | startsWith =>
    obtain ⟨s, -, rfl⟩ := hv
    rfl
  | oneOf =>
    obtain ⟨s, values, -, -, rfl⟩ := hv
    rfl
  | contains | like =>
    obtain ⟨s, -, rfl⟩ := hv
    exact ofClause_containing f s _
  | endsWith =>
    obtain ⟨s, -, rfl⟩ := hv
    exact ofClause_ending f s

theorem leafOf_of_denied (f : String) (hv : Compares op l v) (hop : denied? op = some op') :
    Compares op' l v ∧ denied? op' = none ∧ leafOf f op v = .no (leafOf f op' v) ∧
      (Reduced.comparison ⟨f⟩ op' v).denial = .comparison ⟨f⟩ op v := by
  cases op with
  | ne =>
    obtain rfl := Option.some.inj hop
    obtain rfl : v = .value l := hv
    exact ⟨rfl, rfl, rfl, rfl⟩
  | notLike =>
    obtain rfl := Option.some.inj hop
    obtain ⟨s, hs, rfl⟩ := hv
    exact ⟨⟨s, hs, rfl⟩, rfl, rfl, rfl⟩
  | noneOf =>
    obtain rfl := Option.some.inj hop
    obtain ⟨s, values, hs, hvalues, rfl⟩ := hv
    exact ⟨⟨s, values, hs, hvalues, rfl⟩, rfl, rfl, rfl⟩
  | eq | gt | ge | lt | le | contains | startsWith | endsWith | like | oneOf => cases hop

end

theorem ofClause_nested {path : String} {q : Clause} (h : ∀ r, q ≠ .no r) :
    Reduced.ofClause (.nested path q) = Reduced.ofClause q := by
  cases q with
  | no r => exact absurd rfl (h r)
  | _ => simp only [Reduced.ofClause]

theorem toClause_comparison (p : Property) {op : Operator} {l : Literal} {v : Operand}
    (hl : l ≠ .null) (hv : Compares op l v) :
    (Reduced.comparison p op v).toClause = within p.nestedRoot? (leafOf p.name op v) := by
  rw [Reduced.toClause]
  rintro rfl rfl
  exact hl (Operand.value.inj hv).symm

theorem belongs_of_leaf {p : Property} {op : Operator} {l : Literal} {text : String} {q : Clause}
    {t : Reduced} (hp : p.Named) (htext : l.text? = some text)
    (h : leaf p.name op l text = .ok q) (ht : ReducesComparison p op l t) :
    Belongs t (within p.nestedRoot? q) := by
  cases ht with
  | absence | presence => cases htext
  | denial hl hop hdot hv =>
    obtain ⟨hv', hop', hleaf, -⟩ := leafOf_of_denied p.name hv hop
    have hinner := toClause_comparison p hl hv'
    rw [(nestedRoot?_eq_none_iff_of_named hp).2 hdot] at hinner ⊢
    rw [eq_leafOf_of_leaf hv htext h, hleaf]
    exact ⟨congrArg (Reduced.logical .not [·]) (ofClause_leafOf p.name hv' hop'),
      congrArg Clause.no hinner⟩
  | other hl hkept hv =>
    rw [eq_leafOf_of_leaf hv htext h]
    refine ⟨?_, toClause_comparison p hl hv⟩
    cases hop : denied? op with
    | none =>
      have hread := ofClause_leafOf p.name hv hop
      cases p.nestedRoot? with
      | none => exact hread
      | some path =>
        refine (ofClause_nested fun r hr => ?_).trans hread
        rw [hr] at hread
        cases hread
    | some op' =>
      -- What keeps a denial from being a `not` is the nested object that it stands in.
      have hdot := hkept.resolve_left (by simp [hop])
      obtain ⟨hv', hop', hleaf, hdenial⟩ := leafOf_of_denied p.name hv hop
      obtain ⟨path, hroot⟩ := Option.ne_none_iff_exists'.1
        (mt (nestedRoot?_eq_none_iff_of_named hp).1 (not_not_intro hdot))
      rw [hroot, hleaf]
      exact (congrArg Reduced.denial (ofClause_leafOf p.name hv' hop')).trans hdenial

theorem belongs_of_nullCheck {p : Property} {op : Operator} {q : Clause} {t : Reduced}
    (h : nullCheck p.name op = .ok q) (ht : ReducesComparison p op .null t) : Belongs t q := by
  cases ht with
  | absence | presence =>
    obtain rfl := Except.ok.inj h
    exact ⟨rfl, rfl⟩
  | denial hl | other hl => exact absurd rfl hl

theorem belongs_of_comparison {p : Property} {op : Operator} {l : Literal} {q : Clause}
    {t : Reduced} (hp : p.Named) (h : comparison p op l = .ok q) (ht : ReducesComparison p op l t) :
    Belongs t q := by
  rw [comparison] at h
  split at h
  · next hnull =>
    obtain rfl := Literal.text?_eq_none_iff.1 hnull
    exact belongs_of_nullCheck h ht
  · next text htext =>
    obtain ⟨inner, hinner, rfl⟩ := map_eq_ok_iff.1 h
    exact belongs_of_leaf hp htext hinner ht

theorem belongs_of_compileAll {ns : List Node} {qs : List Clause} {ts : List Reduced}
    (h : compileAll ns = .ok qs) (hts : ReducesAll ns ts)
    (hns : ∀ n ∈ ns, ∀ q t, compile n = .ok q → Reduces n t → Belongs t q) :
    Reduced.ofClauses qs = ts ∧ Reduced.toClauses ts = qs := by
  induction ns generalizing qs ts with
  | nil =>
    cases hts
    obtain rfl := Except.ok.inj h
    exact ⟨rfl, rfl⟩
  | cons n ns ih =>
    cases hts with
    | cons ht hts =>
      obtain ⟨q, rest, hq, hrest, rfl⟩ := compileAll_cons_eq_ok_iff.1 h
      obtain ⟨hfirst, hbehind⟩ := List.forall_mem_cons.1 hns
      obtain ⟨hof, hto⟩ := hfirst q _ hq ht
      obtain ⟨hofs, htos⟩ := ih hrest hts hbehind
      exact ⟨by rw [Reduced.ofClauses, hof, hofs], by rw [Reduced.toClauses, hto, htos]⟩

theorem belongs_of_logical {c : Connective} {ns : List Node} {q : Clause} {t : Reduced}
    (h : compile (.logical c ns) = .ok q) (ht : Reduces (.logical c ns) t)
    (hns : ∀ n ∈ ns, ∀ q t, compile n = .ok q → Reduces n t → Belongs t q) : Belongs t q := by
  obtain ⟨queries, hqueries, hconnect⟩ := compile_logical_eq_ok_iff.1 h
  cases ht with | logical hts
  obtain ⟨rfl, htos⟩ := belongs_of_compileAll hqueries hts hns
  match c, queries with
  | .and, [] | .or, [] | .not, [] | .not, _ :: _ :: _ => cases hconnect
  | .and, r :: rs =>
    obtain rfl := Except.ok.inj hconnect
    exact ⟨rfl, congrArg Clause.every htos⟩
  | .or, r :: rs =>
    obtain rfl := Except.ok.inj hconnect
    exact ⟨rfl, congrArg Clause.some htos⟩
  | .not, [r] =>
    obtain rfl := Except.ok.inj hconnect
    exact ⟨rfl, congrArg Clause.no (List.cons.inj htos).1⟩

/-- The induction follows the canonical trees, in which every name can stand in a filter. -/
theorem belongs_of_compile {n : Node} {q : Clause} {t : Reduced} (hn : n.Canonical)
    (h : compile n = .ok q) (ht : Reduces n t) : Belongs t q := by
  induction hn generalizing q t with
  | comparison hp =>
    obtain ⟨ht⟩ := ht
    exact belongs_of_comparison hp h ht
  | function hp =>
    cases ht with
    | call ht => exact belongs_of_comparison hp h ht
  | group _ ih =>
    cases ht with
    | group ht => exact ih h ht
  | not _ _ ih =>
    apply belongs_of_logical h ht
    exact List.forall_mem_singleton.2 fun _ _ => ih
  | and _ _ _ ih | or _ _ _ ih => exact belongs_of_logical h ht fun n hn _ _ => ih n hn

/-- Two filters have the same query exactly if they are the same but for their spelling. -/
theorem same_query_iff_same_reduced {input input' : String} {n m : Node} {q r : Clause}
    (hn : parse input = .ok n) (hm : parse input' = .ok m) (hq : compile n = .ok q)
    (hr : compile m = .ok r) : q.toJson = r.toJson ↔ ∃ t, Reduces n t ∧ Reduces m t := by
  have hbelongs {t : Reduced} (ht : Reduces n t) :=
    belongs_of_compile (canonical_of_parse hn).1 hq ht
  have hbelongs' {t : Reduced} (ht : Reduces m t) :=
    belongs_of_compile (canonical_of_parse hm).1 hr ht
  constructor
  · intro h
    obtain rfl := clause_eq_of_toJson_eq h
    obtain ⟨t, ht⟩ := exists_reduces_of_compile (canonical_of_parse hn).1 hq
    obtain ⟨u, hu⟩ := exists_reduces_of_compile (canonical_of_parse hm).1 hr
    obtain rfl : t = u := (hbelongs ht).ofClause_eq.symm.trans (hbelongs' hu).ofClause_eq
    exact ⟨t, ht, hu⟩
  · rintro ⟨t, ht, ht'⟩
    rw [← (hbelongs ht).toClause_eq, ← (hbelongs' ht').toClause_eq]

/-- A denial and a call with a number, spelled otherwise; a denial that a nested object sets apart
from a `not`; two texts of one list, and the lists of two values. -/
theorem same_query_iff_same_reduced_denied :
    (∃ n m q r, parse "a ne 'x' and (contains(b, 1))" = .ok n ∧
      parse "not (a = 'x') and b contains '1'" = .ok m ∧ n ≠ m ∧ compile n = .ok q ∧
        compile m = .ok r ∧ q.toJson = r.toJson) ∧
    (∃ n m q r, parse "a.b ne 'x'" = .ok n ∧ parse "not a.b = 'x'" = .ok m ∧ compile n = .ok q ∧
      compile m = .ok r ∧ q.toJson ≠ r.toJson) ∧
    (∃ n m q r, parse "a ?= 'x, y'" = .ok n ∧ parse "a ?= ' x,,y'" = .ok m ∧ n ≠ m ∧
      compile n = .ok q ∧ compile m = .ok r ∧ q.toJson = r.toJson) ∧
    ∃ n m q r, parse "a ?= 'x'" = .ok n ∧ parse "a ?= 'y'" = .ok m ∧ compile n = .ok q ∧
      compile m = .ok r ∧ q.toJson ≠ r.toJson := by
  have hstring (s : String) : Literal.string s ≠ .null := by rintro ⟨⟩
  have hnumber (n : Number) : Literal.number n ≠ .null := by rintro ⟨⟩
  have hlist (text : String) (values : List String) (h : listed text = values) :
      Reduces (.comparison ⟨"a"⟩ .oneOf (.string text))
        (.comparison ⟨"a"⟩ .oneOf (.entries values)) :=
    .comparison (.other (hstring text) (.inl rfl) ⟨text, values, rfl, lists_iff.2 h, rfl⟩)
  refine ⟨?_, ?_, ?_, ?_⟩
  · have hn : parse "a ne 'x' and (contains(b, 1))" = .ok (.logical .and
        [.comparison ⟨"a"⟩ .ne (.string "x"),
          .group (.call .contains ⟨"b"⟩ (.number (.int 1 (by decide))))]) := by cbv
    have hm : parse "not (a = 'x') and b contains '1'" = .ok (.logical .and
        [.logical .not [.group (.comparison ⟨"a"⟩ .eq (.string "x"))],
          .comparison ⟨"b"⟩ .contains (.string "1")]) := by cbv
    refine ⟨_, _, _, _, hn, hm, by simp, rfl, rfl, ?_⟩
    apply (same_query_iff_same_reduced hn hm rfl rfl).2
    refine ⟨.logical .and [.logical .not [.comparison ⟨"a"⟩ .eq (.value (.string "x"))],
      .comparison ⟨"b"⟩ .contains (.text "1")], .logical (.cons ?_ (.cons ?_ .nil)),
      .logical (.cons (.logical (.cons ?_ .nil)) (.cons ?_ .nil))⟩
    · exact .comparison (.denial (hstring "x") rfl (by decide) rfl)
    · exact .group (.call (.other (hnumber _) (.inl rfl) ⟨"1", by decide, rfl⟩))
    · exact .group (.comparison (.other (hstring "x") (.inl rfl) rfl))
    · exact .comparison (.other (hstring "1") (.inl rfl) ⟨"1", rfl, rfl⟩)
  · have hn : parse "a.b ne 'x'" = .ok (.comparison ⟨"a.b"⟩ .ne (.string "x")) := by cbv
    have hm : parse "not a.b = 'x'" =
        .ok (.logical .not [.comparison ⟨"a.b"⟩ .eq (.string "x")]) := by cbv
    refine ⟨_, _, _, _, hn, hm, rfl, rfl, fun h => ?_⟩
    obtain ⟨t, ht, ht'⟩ := (same_query_iff_same_reduced hn hm rfl rfl).1 h
    cases ht' with | logical
    cases ht with | comparison ht
    cases ht with | denial _ _ hdot
    exact hdot (by decide)
  · have hn : parse "a ?= 'x, y'" = .ok (.comparison ⟨"a"⟩ .oneOf (.string "x, y")) := by cbv
    have hm : parse "a ?= ' x,,y'" = .ok (.comparison ⟨"a"⟩ .oneOf (.string " x,,y")) := by cbv
    refine ⟨_, _, _, _, hn, hm, by simp, rfl, rfl, ?_⟩
    apply (same_query_iff_same_reduced hn hm rfl rfl).2
    exact ⟨_, hlist _ ["x", "y"] (by decide), hlist _ _ (by decide)⟩
  · have hn : parse "a ?= 'x'" = .ok (.comparison ⟨"a"⟩ .oneOf (.string "x")) := by cbv
    have hm : parse "a ?= 'y'" = .ok (.comparison ⟨"a"⟩ .oneOf (.string "y")) := by cbv
    refine ⟨_, _, _, _, hn, hm, rfl, rfl, fun h => ?_⟩
    obtain ⟨t, ht, ht'⟩ := (same_query_iff_same_reduced hn hm rfl rfl).1 h
    cases ht with | comparison ht
    cases ht' with | comparison ht'
    cases ht with | other _ _ hv | denial _ hop
    case denial => cases hop
    cases ht' with | other _ _ hv'
    obtain ⟨_, values, ⟨⟩, hvalues, rfl⟩ := hv
    obtain ⟨_, values', ⟨⟩, hvalues', ⟨⟩⟩ := hv'
    have hsame : listed "x" = listed "y" := (lists_iff.1 hvalues).trans (lists_iff.1 hvalues').symm
    exact absurd hsame (by decide)

end FilterQuery.Query
