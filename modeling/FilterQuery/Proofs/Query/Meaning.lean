import FilterQuery.Proofs.Fallible
import FilterQuery.Proofs.Query.Evaluation
import FilterQuery.Query.Compilation

/-! The meaning of filter trees, read off the trees themselves, and that compilation keeps it. -/

namespace FilterQuery.Query

open Expression Fallible

section
variable {α : Type} (oracle : α → Json → Bool) (d : IndexedDocument α)

def Passes (o : α) (kind field : String) (options : Json) : Prop :=
  oracle o (.object [(kind, .object [(field, options)])])

def Satisfies (o : α) (field : String) (value : Literal) (text : String) : Operator → Prop
  | .eq => Passes oracle o "term" field value.toJson
  | .ne => ¬Passes oracle o "term" field value.toJson
  | .gt => Passes oracle o "range" field (.object [("gt", value.toJson)])
  | .ge => Passes oracle o "range" field (.object [("gte", value.toJson)])
  | .lt => Passes oracle o "range" field (.object [("lt", value.toJson)])
  | .le => Passes oracle o "range" field (.object [("lte", value.toJson)])
  | .contains =>
    Passes oracle o "wildcard" field (.object [("value", .string (Pattern.containing text))])
  | .startsWith => Passes oracle o "prefix" field (.object [("value", .string text)])
  | .endsWith =>
    Passes oracle o "wildcard" field (.object [("value", .string (Pattern.ending text))])
  | .like => Passes oracle o "wildcard" field
      (.object [("case_insensitive", .bool true), ("value", .string (Pattern.containing text))])
  | .notLike => ¬Passes oracle o "wildcard" field
      (.object [("case_insensitive", .bool true), ("value", .string (Pattern.containing text))])
  | .oneOf => Passes oracle o "terms" field (.array ((listed text).map .string))
  | .noneOf => ¬Passes oracle o "terms" field (.array ((listed text).map .string))

def Present (field : String) : Prop :=
  oracle d.root (.object [("exists", .object [("field", .string field)])])

/-- The objects that a field is looked for in: the nested documents that it is one of, or the root
if there are none. -/
inductive AskedOf (p : Property) : α → Prop where
  | nested {path : String} {o : α} : p.Under path → o ∈ d.under path → AskedOf p o
  | root : (∀ path, ¬p.Under path) → AskedOf p d.root

/-- Null stands for absence of the whole path, and is never looked for in nested documents. -/
def ComparisonHolds (p : Property) (op : Operator) (value : Literal) : Prop :=
  match value, op with
  | .null, .eq => ¬Present oracle d p.name
  | .null, .ne => Present oracle d p.name
  | .null, _ => False
  | value, op => ∃ text o, value.text? = some text ∧ AskedOf d p o ∧
      Satisfies oracle o p.name value text op

mutual

def TreeHolds : Node → Prop
  | .property _ | .literal _ => False
  | .comparison p op l => ComparisonHolds oracle d p op l
  | .logical .and ns => AllHold ns
  | .logical .or ns => SomeHold ns
  | .logical .not ns => ¬SomeHold ns
  | .function f [.property p, .literal l] => ComparisonHolds oracle d p f.operator l
  | .function _ _ => False
  | .group n => TreeHolds n

def AllHold : List Node → Prop
  | [] => True
  | n :: ns => TreeHolds n ∧ AllHold ns

def SomeHold : List Node → Prop
  | [] => False
  | n :: ns => TreeHolds n ∨ SomeHold ns

end

variable {oracle d} {o : α}

theorem allHold_iff (ns : List Node) : AllHold oracle d ns ↔ ∀ n ∈ ns, TreeHolds oracle d n := by
  induction ns with
  | nil => simp only [AllHold, List.not_mem_nil, false_implies, implies_true]
  | cons n ns ih => simp only [AllHold, List.forall_mem_cons, ih]

theorem someHold_iff (ns : List Node) : SomeHold oracle d ns ↔ ∃ n ∈ ns, TreeHolds oracle d n := by
  induction ns with
  | nil => simp only [SomeHold, List.not_mem_nil, false_and, exists_false]
  | cons n ns ih => simp only [SomeHold, List.mem_cons, exists_eq_or_imp, ih]

theorem exists_askedOf_of_nested {p : Property} {path : String} {P : α → Prop}
    (h : p.nestedRoot? = some path) : (∃ o, AskedOf d p o ∧ P o) ↔ ∃ o ∈ d.under path, P o := by
  have hunder := Property.nestedRoot?_eq_some_iff.1 h
  constructor
  · rintro ⟨o, hasked, hP⟩
    cases hasked with
    | nested hunder' ho =>
      rw [← Property.nestedRoot?_eq_some_iff, h] at hunder'
      obtain rfl := Option.some.inj hunder'
      exact ⟨o, ho, hP⟩
    | root hnone => exact absurd hunder (hnone path)
  · rintro ⟨o, ho, hP⟩
    exact ⟨o, .nested hunder ho, hP⟩

theorem exists_askedOf_of_root {p : Property} {P : α → Prop} (h : p.nestedRoot? = none) :
    (∃ o, AskedOf d p o ∧ P o) ↔ P d.root := by
  have hnone : ∀ path, ¬p.Under path := by
    intro path hunder
    rw [← Property.nestedRoot?_eq_some_iff, h] at hunder
    cases hunder
  constructor
  · rintro ⟨o, hasked, hP⟩
    cases hasked with
    | nested hunder _ => exact absurd hunder (hnone _)
    | root => exact hP
  · intro hP
    exact ⟨d.root, .root hnone, hP⟩

theorem comparisonHolds_iff {p : Property} {op : Operator} {value : Literal} {text : String}
    (h : value.text? = some text) : ComparisonHolds oracle d p op value ↔
      ∃ o, AskedOf d p o ∧ Satisfies oracle o p.name value text op := by
  cases value with
  | null => cases h
  | string | number | boolean =>
    obtain rfl := Option.some.inj h
    simp [ComparisonHolds, Literal.text?]

/-! Each kind of clause as the backend reads it. -/

theorem exists_toJson_eq_object (q : Clause) : ∃ fields, q.toJson = .object fields := by
  cases q <;> simp only [Clause.toJson, Json.single, Json.object.injEq, exists_eq']

theorem holds_every (qs : List Clause) :
    holds oracle d (Clause.every qs).toJson o = qs.all (holds oracle d ·.toJson o) := by
  rw [Clause.toJson, Clause.toJsons_eq_map]
  show holds oracle d (.single "bool" (.object [("must", .array (qs.map Clause.toJson))])) o = _
  rw [holds_bool]
  simp [conditions_array, conditions_nil, minimumShould, Table.get?, List.lookup_cons,
    Function.comp_def]

theorem holds_some (qs : List Clause) :
    holds oracle d (Clause.some qs).toJson o = qs.any (holds oracle d ·.toJson o) := by
  -- The count of conditions that hold is positive as soon as one holds.
  have one : (Number.ofNat32 1).toUInt64? = some 1 := by decide
  rw [Clause.toJson, Clause.toJsons_eq_map, holds_bool]
  rw [Bool.eq_iff_iff]
  simp [conditions_array, conditions_of_ne, conditions_nil, minimumShould, Table.get?,
    Json.toUInt64?, one]

theorem holds_no (q : Clause) :
    holds oracle d (Clause.no q).toJson o = !holds oracle d q.toJson o := by
  rw [Clause.toJson]
  show holds oracle d (.single "bool" (.object [("must_not", .array [q.toJson])])) o = _
  rw [holds_bool]
  simp [conditions_array, conditions_nil, minimumShould, Table.get?, List.lookup_cons]

theorem holds_nested (path : String) (q : Clause) :
    holds oracle d (Clause.nested path q).toJson o =
      (d.under path).any (holds oracle d q.toJson ·) := by
  obtain ⟨fields, hq⟩ := exists_toJson_eq_object q
  rw [Clause.toJson, hq, Json.single, holds]
  simp [conditions_object, conditions_of_ne, conditions_nil, Table.get?, Json.toString?]

theorem holds_iff_passes {kind : String} (field : String) (options : Json) (hbool : kind ≠ "bool")
    (hnested : kind ≠ "nested") (hall : kind ≠ "match_all") :
    holds oracle d (.single kind (.single field options)) o ↔
      Passes oracle o kind field options := by
  rw [holds_leaf _ hbool hnested hall]
  rfl

theorem holds_present (field : String) :
    holds oracle d (Clause.present field).toJson d.root ↔ Present oracle d field := by
  rw [Clause.toJson, holds_leaf _ (by decide) (by decide) (by decide)]
  rfl

theorem eq_range_of_ok {field : String} {op : Operator} {bound : Bound} {value : Literal}
    {q : Clause} (h : range field op bound value = .ok q) : q = .range field bound value := by
  cases value <;> simp only [range, Except.ok.injEq, reduceCtorEq] at h <;> exact h.symm

theorem holds_of_range {field : String} {op : Operator} {bound : Bound} {value : Literal}
    {q : Clause} (h : range field op bound value = .ok q) :
    holds oracle d q.toJson o ↔
      Passes oracle o "range" field (.object [(bound.key, value.toJson)]) := by
  rw [eq_range_of_ok h, Clause.toJson]
  exact holds_iff_passes field _ (by decide) (by decide) (by decide)

theorem holds_of_leaf {field text : String} {op : Operator} {value : Literal} {q : Clause}
    (h : leaf field op value text = .ok q) :
    holds oracle d q.toJson o ↔ Satisfies oracle o field value text op := by
  have passes (kind : String) (options : Json) (hbool : kind ≠ "bool" := by decide)
      (hnested : kind ≠ "nested" := by decide) (hall : kind ≠ "match_all" := by decide) :
      holds oracle d (.single kind (.single field options)) o ↔
        Passes oracle o kind field options :=
    holds_iff_passes field options hbool hnested hall
  cases op with
  | gt => exact holds_of_range h
  | ge => exact holds_of_range h
  | lt => exact holds_of_range h
  | le => exact holds_of_range h
  | ne | notLike | noneOf =>
    obtain rfl := Except.ok.inj h
    rw [holds_no, Bool.not_eq_true', ← Bool.not_eq_true]
    exact not_congr (passes _ _)
  | eq | contains | startsWith | endsWith | like | oneOf =>
    obtain rfl := Except.ok.inj h
    exact passes _ _

theorem holds_of_nullCheck {p : Property} {op : Operator} {q : Clause}
    (h : nullCheck p.name op = .ok q) :
    holds oracle d q.toJson d.root ↔ ComparisonHolds oracle d p op .null := by
  cases op with
  | eq =>
    obtain rfl := Except.ok.inj h
    show _ ↔ ¬Present oracle d p.name
    rw [holds_no, Bool.not_eq_true', ← Bool.not_eq_true, holds_present]
  | ne =>
    obtain rfl := Except.ok.inj h
    exact holds_present p.name
  | _ => exact absurd h nofun

theorem holds_of_comparison {p : Property} {op : Operator} {value : Literal} {q : Clause}
    (h : comparison p op value = .ok q) :
    holds oracle d q.toJson d.root ↔ ComparisonHolds oracle d p op value := by
  rw [comparison] at h
  split at h
  · next hvalue =>
    obtain rfl := Literal.text?_eq_none_iff.1 hvalue
    exact holds_of_nullCheck h
  · next text hvalue =>
    obtain ⟨inner, hleaf, rfl⟩ := map_eq_ok_iff.1 h
    rw [comparisonHolds_iff hvalue]
    cases hroot : p.nestedRoot? with
    | none =>
      rw [exists_askedOf_of_root hroot]
      exact holds_of_leaf hleaf
    | some path =>
      rw [exists_askedOf_of_nested hroot]
      simp only [within, holds_nested, List.any_eq_true]
      exact exists_congr fun o => and_congr_right fun _ => holds_of_leaf hleaf

theorem holds_of_connect {c : Connective} {queries : List Clause} {q : Clause}
    (h : connect c queries = .ok q) :
    holds oracle d q.toJson o ↔
      match c with
      | .and => ∀ q ∈ queries, holds oracle d q.toJson o
      | .or => ∃ q ∈ queries, holds oracle d q.toJson o
      | .not => ¬∃ q ∈ queries, holds oracle d q.toJson o := by
  cases c with
  | and =>
    cases queries with
    | nil => exact absurd h nofun
    | cons r rs =>
      obtain rfl := Except.ok.inj h
      rw [holds_every, List.all_eq_true]
  | or =>
    cases queries with
    | nil => exact absurd h nofun
    | cons r rs =>
      obtain rfl := Except.ok.inj h
      rw [holds_some, List.any_eq_true]
  | not =>
    match queries with
    | [] => exact absurd h nofun
    | [r] =>
      obtain rfl := Except.ok.inj h
      simp only [holds_no, Bool.not_eq_true', List.mem_singleton, exists_eq_left,
        Bool.not_eq_true]
    | _ :: _ :: _ => exact absurd h nofun

/-! What the parts of a tree with a query have been compiled to. -/

theorem compile_logical_eq_ok_iff {c : Connective} {ns : List Node} {q : Clause} :
    compile (.logical c ns) = .ok q ↔ ∃ qs, compileAll ns = .ok qs ∧ connect c qs = .ok q := by
  rw [compile]
  exact bind_eq_ok_iff

theorem compileAll_cons_eq_ok_iff {n : Node} {ns : List Node} {qs : List Clause} :
    compileAll (n :: ns) = .ok qs ↔
      ∃ q rest, compile n = .ok q ∧ compileAll ns = .ok rest ∧ q :: rest = qs := by
  rw [compileAll]
  simp only [bind_eq_ok_iff, Except.ok.injEq, exists_and_left]

theorem arguments_of_compile_function {f : FunctionName} {args : List Node} {q : Clause}
    (h : compile (.function f args) = .ok q) :
    ∃ p l, args = [.property p, .literal l] ∧ comparison p f.operator l = .ok q := by
  by_cases hargs : ∃ p l, args = [.property p, .literal l]
  · obtain ⟨p, l, rfl⟩ := hargs
    exact ⟨p, l, rfl, h⟩
  · rw [compile] at h
    · cases h
    · exact fun p l e => hargs ⟨p, l, e⟩

/-! The induction follows the trees: what is shown of an operand list serves all connectives. -/

mutual

theorem holds_of_compile : ∀ {n : Node} {q : Clause}, compile n = .ok q →
    (holds oracle d q.toJson d.root ↔ TreeHolds oracle d n)
  | .property _, _, h | .literal _, _, h => nomatch h
  | .comparison _ _ _, _, h => holds_of_comparison h
  | .logical c ns, q, h => by
    obtain ⟨queries, hns, hq⟩ := compile_logical_eq_ok_iff.1 h
    obtain ⟨hevery, hsome⟩ := holds_of_compileAll hns
    rw [holds_of_connect hq]
    cases c with
    | and => rwa [TreeHolds, allHold_iff]
    | or => rwa [TreeHolds, someHold_iff]
    | not => rw [TreeHolds, someHold_iff, hsome]
  | .function f args, q, h => by
    obtain ⟨p, l, rfl, hcomparison⟩ := arguments_of_compile_function h
    exact holds_of_comparison hcomparison
  | .group n, q, h => holds_of_compile (n := n) h

theorem holds_of_compileAll : ∀ {ns : List Node} {qs : List Clause}, compileAll ns = .ok qs →
    ((∀ q ∈ qs, holds oracle d q.toJson d.root) ↔ ∀ n ∈ ns, TreeHolds oracle d n) ∧
      ((∃ q ∈ qs, holds oracle d q.toJson d.root) ↔ ∃ n ∈ ns, TreeHolds oracle d n)
  | [], qs, h => by
    obtain rfl := Except.ok.inj h
    simp only [List.not_mem_nil, false_implies, implies_true, false_and, exists_false, and_self]
  | n :: ns, qs, h => by
    obtain ⟨q, rest, hn, hns, rfl⟩ := compileAll_cons_eq_ok_iff.1 h
    obtain ⟨hevery, hsome⟩ := holds_of_compileAll hns
    have hq := holds_of_compile hn
    constructor
    · rw [List.forall_mem_cons, List.forall_mem_cons, hq, hevery]
    · simp only [List.mem_cons, exists_eq_or_imp, hq, hsome]

end

end

/-- The query of a filter passes exactly the documents that the filter passes, whatever the oracle
makes of the leaf queries. -/
theorem holds_compiled_iff_treeHolds {α : Type} (oracle : α → Json → Bool) (d : IndexedDocument α)
    {n : Node} {q : Clause} (h : compile n = .ok q) :
    holds oracle d q.toJson d.root ↔ TreeHolds oracle d n :=
  holds_of_compile h

/-- Denial within a nested object, whose path ends before the first of two dots, and a dot in front
that sets no path apart; presence is asked of the root. -/
theorem holds_compiled_iff_treeHolds_nested :
    let d : IndexedDocument Bool := ⟨true, fun path => if path = "tags" then [true, false] else []⟩
    let tree : Node := .logical .and [.comparison ⟨"tags.name.first"⟩ .ne (.string "x"),
      .comparison ⟨".name"⟩ .eq (.string "x"), .comparison ⟨"tags.name"⟩ .ne .null]
    let query : Clause := .every [.nested "tags" (.no (.term "tags.name.first" (.string "x"))),
      .term ".name" (.string "x"), .present "tags.name"]
    compile tree = .ok query ∧
      (holds (fun o _ => o) d query.toJson true ↔ TreeHolds (fun o _ => o) d tree) ∧
      TreeHolds (fun o _ => o) d tree := by
  intro d tree query
  have hquery : compile tree = .ok query := rfl
  refine ⟨hquery, holds_compiled_iff_treeHolds (fun o _ => o) d hquery, ?_⟩
  have hnested : ComparisonHolds (fun o _ => o) d ⟨"tags.name.first"⟩ .ne (.string "x") := by
    have hroot : Property.nestedRoot? ⟨"tags.name.first"⟩ = some "tags" := by decide
    rw [comparisonHolds_iff rfl, exists_askedOf_of_nested hroot]
    exact ⟨false, by simp [d], by simp [Satisfies, Passes]⟩
  have hroot : ComparisonHolds (fun o _ => o) d ⟨".name"⟩ .eq (.string "x") := by
    rw [comparisonHolds_iff rfl, exists_askedOf_of_root (by decide)]
    rfl
  exact ⟨hnested, hroot, rfl, trivial⟩

end FilterQuery.Query
