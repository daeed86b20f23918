import FilterQuery.Proofs.Query.Distinction

/-! What the operators that deny another one say. On one object a denial is the negation of what it
denies. A dotted field is asked of every nested object by itself, so that both can hold of a
document, or neither. -/

namespace FilterQuery.Query

open Expression

theorem exists_not_iff_not_exists_iff {α : Type} {P : α → Prop} {l : List α} :
    ((∃ a ∈ l, ¬P a) ↔ ¬∃ a ∈ l, P a) ↔ l ≠ [] ∧ ∀ a ∈ l, ∀ b ∈ l, P a → P b := by
  constructor
  · intro h
    have hagree : ∀ a ∈ l, ∀ b ∈ l, P a → P b := by
      intro a ha b hb hPa
      apply Classical.byContradiction
      intro hPb
      exact h.1 ⟨b, hb, hPb⟩ ⟨a, ha, hPa⟩
    refine ⟨?_, hagree⟩
    rintro rfl
    obtain ⟨a, ha, -⟩ := h.2 (by rintro ⟨a, ha, -⟩; cases ha)
    cases ha
  · rintro ⟨hne, hagree⟩
    obtain ⟨a, ha⟩ := List.exists_mem_of_ne_nil l hne
    constructor
    · rintro ⟨b, hb, hPb⟩ ⟨c, hc, hPc⟩
      exact hPb (hagree c hc b hb hPc)
    · intro hnone
      exact ⟨a, ha, fun hPa => hnone ⟨a, ha, hPa⟩⟩

section
variable {α : Type} {oracle : α → Json → Bool} {d : IndexedDocument α} {o : α}
  {p : Property} {op op' : Operator} {l : Literal} {text : String} {q r : Clause}

theorem satisfies_iff_not_of_denied (hop : denied? op = some op') (field : String) :
    Satisfies oracle o field l text op ↔ ¬Satisfies oracle o field l text op' := by
  cases op with
  | ne | notLike | noneOf =>
    obtain rfl := Option.some.inj hop
    exact Iff.rfl
  | eq | gt | ge | lt | le | contains | startsWith | endsWith | like | oneOf => cases hop

theorem exists_comparison_of_denied (p : Property) (htext : l.text? = some text)
    (hop : denied? op = some op') :
    ∃ q r, comparison p op' l = .ok q ∧ comparison p op l = .ok r := by
  unfold comparison
  rw [htext]
  cases op with
  | ne | notLike | noneOf =>
    obtain rfl := Option.some.inj hop
    exact ⟨_, _, rfl, rfl⟩
  | eq | gt | ge | lt | le | contains | startsWith | endsWith | like | oneOf => cases hop

theorem holds_comparison_of_root (htext : l.text? = some text) (hroot : p.nestedRoot? = none)
    (h : comparison p op l = .ok q) :
    holds oracle d q.toJson d.root ↔ Satisfies oracle d.root p.name l text op := by
  rw [holds_of_comparison h, comparisonHolds_iff htext, exists_askedOf_of_root hroot]

theorem holds_comparison_of_nested {path : String} (htext : l.text? = some text)
    (hroot : p.nestedRoot? = some path) (h : comparison p op l = .ok q) :
    holds oracle d q.toJson d.root ↔
      ∃ o ∈ d.under path, Satisfies oracle o p.name l text op := by
  rw [holds_of_comparison h, comparisonHolds_iff htext, exists_askedOf_of_nested hroot]

theorem holds_denial_of_nested {path : String} (htext : l.text? = some text)
    (hop : denied? op = some op') (hroot : p.nestedRoot? = some path)
    (h : comparison p op l = .ok r) :
    holds oracle d r.toJson d.root ↔
      ∃ o ∈ d.under path, ¬Satisfies oracle o p.name l text op' := by
  rw [holds_comparison_of_nested htext hroot h]
  simp only [satisfies_iff_not_of_denied hop]

theorem denial_iff_not_of_nested {path : String} (htext : l.text? = some text)
    (hop : denied? op = some op') (hroot : p.nestedRoot? = some path)
    (hq : comparison p op' l = .ok q) (hr : comparison p op l = .ok r) :
    (holds oracle d r.toJson d.root ↔ ¬holds oracle d q.toJson d.root) ↔
      d.under path ≠ [] ∧ ∀ o ∈ d.under path, ∀ o' ∈ d.under path,
        Satisfies oracle o p.name l text op' → Satisfies oracle o' p.name l text op' := by
  rw [holds_comparison_of_nested htext hroot hq, holds_denial_of_nested htext hop hroot hr]
  exact exists_not_iff_not_exists_iff

end

/-- A denial is the negation of what it denies, as a `not` in front is, wherever a field is asked of
the root. Of nested objects it is the negation for each one: it holds if there is one that fails,
and so is the negation for the document just where there are such objects and they all agree. -/
theorem denial_is_negation_on_each_object {α : Type} (oracle : α → Json → Bool)
    (d : IndexedDocument α) (p : Property) {op op' : Operator} {l : Literal}
    (hop : denied? op = some op') (hl : l ≠ .null) :
    ∃ text q r, l.text? = some text ∧ compile (.comparison p op' l) = .ok q ∧
      compile (.comparison p op l) = .ok r ∧
      compile (.logical .not [.comparison p op' l]) = .ok (.no q) ∧
      (holds oracle d (Clause.no q).toJson d.root ↔ ¬holds oracle d q.toJson d.root) ∧
      (p.nestedRoot? = none →
        (holds oracle d r.toJson d.root ↔ ¬holds oracle d q.toJson d.root)) ∧
      ∀ path, p.nestedRoot? = some path →
        (holds oracle d q.toJson d.root ↔
          ∃ o ∈ d.under path, Satisfies oracle o p.name l text op') ∧
        (holds oracle d r.toJson d.root ↔
          ∃ o ∈ d.under path, ¬Satisfies oracle o p.name l text op') ∧
        ((holds oracle d r.toJson d.root ↔ ¬holds oracle d q.toJson d.root) ↔
          d.under path ≠ [] ∧ ∀ o ∈ d.under path, ∀ o' ∈ d.under path,
            Satisfies oracle o p.name l text op' → Satisfies oracle o' p.name l text op') := by
  obtain ⟨text, htext⟩ := Literal.exists_text?_eq_some hl
  obtain ⟨q, r, hq, hr⟩ := exists_comparison_of_denied p htext hop
  have hnot : compile (.logical .not [.comparison p op' l]) = .ok (.no q) := by
    rw [compile, compileAll, compile, hq]
    rfl
  refine ⟨text, q, r, htext, hq, hr, hnot, ?_, ?_, ?_⟩
  · rw [holds_no, Bool.not_eq_true', Bool.not_eq_true]
  · intro hroot
    rw [holds_comparison_of_root htext hroot hq, holds_comparison_of_root htext hroot hr]
    exact satisfies_iff_not_of_denied hop p.name
  · intro path hroot
    exact ⟨holds_comparison_of_nested htext hroot hq, holds_denial_of_nested htext hop hroot hr,
      denial_iff_not_of_nested htext hop hroot hq hr⟩

/-- On nested objects that differ a denial holds beside what it denies, where the text before the
dot is a path; it is the negation where there is none. -/
theorem denial_is_negation_on_each_object_differing :
    let d : IndexedDocument Bool := ⟨true, fun _ => [true, false]⟩
    denied? .ne = some .eq ∧ Literal.string "x" ≠ .null ∧
      (∃ q r, compile (.comparison ⟨"tags.name"⟩ .eq (.string "x")) = .ok q ∧
        compile (.comparison ⟨"tags.name"⟩ .ne (.string "x")) = .ok r ∧
        holds (fun o _ => o) d q.toJson true ∧ holds (fun o _ => o) d r.toJson true) ∧
      ∃ q r, compile (.comparison ⟨".name"⟩ .eq (.string "x")) = .ok q ∧
        compile (.comparison ⟨".name"⟩ .ne (.string "x")) = .ok r ∧
        (holds (fun o _ => o) d r.toJson true ↔ ¬holds (fun o _ => o) d q.toJson true) := by
  intro d
  have hvalue : Literal.string "x" ≠ .null := nofun
  have hop : denied? .ne = some .eq := rfl
  refine ⟨rfl, hvalue, ?_, ?_⟩
  · obtain ⟨text, q, r, htext, hq, hr, -, -, -, hnested⟩ :=
      denial_is_negation_on_each_object (fun o _ => o) d ⟨"tags.name"⟩ hop hvalue
    obtain ⟨hpositive, hdenial, -⟩ := hnested "tags" (by decide)
    obtain rfl := Option.some.inj htext
    exact ⟨q, r, hq, hr, hpositive.2 ⟨true, by simp [d], rfl⟩,
      hdenial.2 ⟨false, by simp [d], nofun⟩⟩
  · obtain ⟨text, q, r, htext, hq, hr, -, -, hroot, -⟩ :=
      denial_is_negation_on_each_object (fun o _ => o) d ⟨".name"⟩ hop hvalue
    exact ⟨q, r, hq, hr, hroot (by decide)⟩

/-- No denial of a dotted field is the negation on every document: where there is no nested object
neither it nor what it denies holds, and where two differ both do. -/
theorem denial_is_no_negation_on_nested :
    let document (objects : List Bool) : IndexedDocument Bool := ⟨true, fun _ => objects⟩
    let negates (q r : Clause) (objects : List Bool) : Prop :=
      (holds (fun o _ => o) (document objects) r.toJson true ↔
        ¬holds (fun o _ => o) (document objects) q.toJson true)
    let differs (op op' : Operator) : Prop := ∃ q r,
      compile (.comparison ⟨"a.b"⟩ op' (.string "x")) = .ok q ∧
        compile (.comparison ⟨"a.b"⟩ op (.string "x")) = .ok r ∧
        ¬negates q r [] ∧ ¬negates q r [true, false]
    differs .ne .eq ∧ differs .notLike .like ∧ differs .noneOf .oneOf := by
  intro document negates differs
  have htext : (Literal.string "x").text? = some "x" := rfl
  have hroot : Property.nestedRoot? ⟨"a.b"⟩ = some "a" := by decide
  have hdiffers {op op' : Operator} (hop : denied? op = some op')
      (hsatisfies : ∀ o : Bool, Satisfies (fun o _ => o) o "a.b" (.string "x") "x" op' ↔ o) :
      differs op op' := by
    obtain ⟨q, r, hq, hr⟩ := exists_comparison_of_denied ⟨"a.b"⟩ htext hop
    have hagree (objects : List Bool) (h : negates q r objects) :=
      (denial_iff_not_of_nested (d := document objects) htext hop hroot hq hr).1 h
    refine ⟨q, r, hq, hr, fun h => (hagree _ h).1 rfl, fun h => ?_⟩
    have hfalse := (hagree _ h).2 true (by simp [document]) false (by simp [document])
      ((hsatisfies true).2 rfl)
    exact Bool.false_ne_true ((hsatisfies false).1 hfalse)
  refine ⟨hdiffers rfl ?_, hdiffers rfl ?_, hdiffers rfl ?_⟩
  · simp [Satisfies, Passes]
  · simp [Satisfies, Passes]
  · simp [Satisfies, Passes]

end FilterQuery.Query
