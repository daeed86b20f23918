import FilterQuery.Proofs.Expression.Regrouping
import FilterQuery.Proofs.Search.Confinement

/-! The text of the filter that criteria amount to under a scope, and what it means when it is read
again. Of the two filters only the caller's has parentheses in it. -/

namespace FilterQuery.Search

open Expression Query Fallible

theorem tree_eq_ok_some {s : Scope} {n : Node} (h : s.tree = .ok (some n)) :
    ∃ text, parse text = .ok n := by
  obtain ⟨-, ⟨⟩⟩ | ⟨text, _, -, hn, ⟨⟩⟩ := readFilter_cases h
  exact ⟨text, hn⟩

theorem effectiveFilter_eq_ok_some {c : Criteria} {s : Scope} {t : Node}
    (h : effectiveFilter c s = .ok (some t)) :
    (∃ text, parse text = .ok t) ∨ ∃ own scope m n, parse own = .ok m ∧ parse scope = .ok n ∧
      t = .logical .and [.group m, n] := by
  obtain ⟨caller, hcaller, hscope⟩ := bind_eq_ok_iff.1 h
  obtain ⟨scope, htree, hcombine⟩ := map_eq_ok_iff.1 hscope
  obtain ⟨-, rfl⟩ | ⟨own, m, -, hm, rfl⟩ := readFilter_cases hcaller
  · obtain rfl : scope = some t := hcombine
    exact .inl (tree_eq_ok_some htree)
  · cases scope with
    | none =>
      obtain rfl := Option.some.inj hcombine
      exact .inl ⟨own, hm⟩
    | some n =>
      obtain rfl := Option.some.inj hcombine
      obtain ⟨text, hn⟩ := tree_eq_ok_some htree
      exact .inr ⟨own, text, m, n, hm, hn, rfl⟩

theorem effectiveFilter_of_both {own scope : String} {m n : Node}
    (hown : Text.nonBlank own = some own) (hm : parse own = .ok m)
    (hscope : Text.nonBlank scope = some scope) (hn : parse scope = .ok n) :
    effectiveFilter { filter := some own } ⟨some scope⟩ =
      .ok (some (.logical .and [.group m, n])) := by
  simp only [effectiveFilter, callerFilter, Criteria.filter?, Scope.apply, Scope.tree, parseFilter,
    Option.bind_some, hown, hm, hscope, hn]
  rfl

theorem treeHolds_conjoin {α : Type} {oracle : α → Json → Bool} {d : IndexedDocument α}
    (m n : Node) :
    TreeHolds oracle d (m.conjoin n) ↔ TreeHolds oracle d (.logical .and [m, n]) := by
  unfold Node.conjoin
  split
  · simp only [TreeHolds, AllHold, and_true]
  · rfl

/-- The text is a filter as far as it is not too deep, for which the group about the caller's filter
counts. Unless the scope is a chain of `or`, whose operands are not kept together, that filter
passes the same documents. -/
theorem parse_print_effectiveFilter {c : Criteria} {s : Scope} {t : Node}
    (h : effectiveFilter c s = .ok (some t)) :
    ((∃ u, parse t.print = .ok u) ↔ t.nesting ≤ 128) ∧
      ∀ u, parse t.print = .ok u → (∀ m ns, t ≠ .logical .and [.group m, .logical .or ns]) →
        ∀ {α : Type} (oracle : α → Json → Bool) (d : IndexedDocument α),
          TreeHolds oracle d u ↔ TreeHolds oracle d t := by
  obtain ⟨text, ht⟩ | ⟨own, scope, m, n, hm, hn, rfl⟩ := effectiveFilter_eq_ok_some h
  · obtain ⟨hcanonical, hdepth⟩ := canonical_of_parse ht
    have hread (u : Node) := parse_print_eq_ok_iff (u := u) hcanonical
    refine ⟨⟨fun _ => hdepth, fun _ => ⟨t, (hread t).2 ⟨rfl, hdepth⟩⟩⟩, fun u hu _ _ oracle d => ?_⟩
    rw [((hread u).1 hu).1]
  · have hgroup : (Node.group m).Canonical := .group (canonical_of_parse hm).1
    have hread (u : Node) := parse_conjunction_eq_ok_iff (u := u) hgroup rfl
      (canonical_of_parse hn).1
    refine ⟨⟨fun ⟨u, hu⟩ => ((hread u).1 hu).2, fun hdepth => ⟨_, (hread _).2 ⟨rfl, hdepth⟩⟩⟩, ?_⟩
    intro u hu hscope α oracle d
    obtain ⟨rfl, -⟩ := (hread u).1 hu
    have hnot (ns : List Node) : n ≠ .logical .or ns := fun hns => hscope m ns (hns ▸ rfl)
    rw [Node.conjoinFirst_of_not_or hnot, treeHolds_conjoin]

/-- A scope that is a chain of `and` is read into the conjunction about it. -/
theorem parse_print_effectiveFilter_of_and :
    let absent (name : String) : Node := .comparison ⟨name⟩ .eq .null
    let own := Node.logical .or [absent "a", absent "b"]
    let t := Node.logical .and [.group own, .logical .and [absent "c", absent "d"]]
    let u := Node.logical .and [.group own, absent "c", absent "d"]
    effectiveFilter { filter := some "a eq null or b eq null" } ⟨some "c eq null and d eq null"⟩ =
        .ok (some t) ∧ ((∃ u, parse t.print = .ok u) ↔ t.nesting ≤ 128) ∧
      parse t.print = .ok u ∧ (∀ m ns, t ≠ .logical .and [.group m, .logical .or ns]) ∧
      ∀ {α : Type} (oracle : α → Json → Bool) (d : IndexedDocument α),
        TreeHolds oracle d u ↔ TreeHolds oracle d t := by
  intro absent own t u
  have hown : parse "a eq null or b eq null" = .ok own := by cbv
  have hscope : parse "c eq null and d eq null" = .ok (.logical .and [absent "c", absent "d"]) := by
    cbv
  have ht := effectiveFilter_of_both rfl hown rfl hscope
  have hu : parse t.print = .ok u := by cbv
  have hchain : ∀ m ns, t ≠ .logical .and [.group m, .logical .or ns] := by simp [t]
  obtain ⟨haccepted, hholds⟩ := parse_print_effectiveFilter ht
  exact ⟨ht, haccepted, hu, hchain, fun oracle d => hholds u hu hchain oracle d⟩

def asksForA : Json → Bool
  | .object [(_, .object [(_, .string field)])] => field = "a"
  | _ => false

def grouped (k : Nat) (n : Node) : Node := Nat.repeat .group k n

theorem canonical_grouped {n : Node} (h : n.Canonical) (k : Nat) : (grouped k n).Canonical := by
  induction k with
  | zero => exact h
  | succ k ih => exact .group ih

theorem nesting_grouped (k : Nat) (n : Node) : (grouped k n).nesting = n.nesting + k := by
  induction k with
  | zero => rfl
  | succ k ih =>
    have hsucc : grouped (k + 1) n = .group (grouped k n) := rfl
    rw [hsucc, Node.nesting_group, ih, Nat.add_assoc]

/-- A document that has `a` alone passes the text of its absence and that of `b` or `c`, since `c`
is no longer confined; and with a group about a caller's filter that has all the groups there may
be, the text is no filter. -/
theorem print_effectiveFilter_of_or_and_of_deep :
    (∃ t q u, effectiveFilter { filter := some "a eq null" } ⟨some "b eq null or c eq null"⟩ =
        .ok (some t) ∧ compile t = .ok q ∧ parse t.print = .ok u ∧
        TreeHolds (fun _ => asksForA) ⟨(), fun _ => []⟩ u ∧
        ¬TreeHolds (fun _ => asksForA) ⟨(), fun _ => []⟩ t) ∧
      ∃ t q, effectiveFilter
          { filter := some (grouped 128 (.comparison ⟨"a"⟩ .eq .null)).print } ⟨some "b eq null"⟩ =
          .ok (some t) ∧ compile t = .ok q ∧ ∀ u, parse t.print ≠ .ok u := by
  have ha : parse "a eq null" = .ok (.comparison ⟨"a"⟩ .eq .null) := by cbv
  have hb : parse "b eq null" = .ok (.comparison ⟨"b"⟩ .eq .null) := by cbv
  have hor : parse "b eq null or c eq null" = .ok (.logical .or
    [.comparison ⟨"b"⟩ .eq .null, .comparison ⟨"c"⟩ .eq .null]) := by cbv
  constructor
  · refine ⟨_, _, .logical .or [.logical .and [.group (.comparison ⟨"a"⟩ .eq .null),
      .comparison ⟨"b"⟩ .eq .null], .comparison ⟨"c"⟩ .eq .null],
      effectiveFilter_of_both rfl ha rfl hor, rfl, by cbv, ?_, ?_⟩
    · simp [TreeHolds, AllHold, SomeHold, ComparisonHolds, Present, asksForA]
    · simp [TreeHolds, AllHold, SomeHold, ComparisonHolds, Present, asksForA]
  · have hcanonical : (Node.comparison ⟨"a"⟩ .eq .null).Canonical :=
      (canonical_of_parse ha).1
    have hdeep : parse (grouped 128 (.comparison ⟨"a"⟩ .eq .null)).print =
        .ok (grouped 128 (.comparison ⟨"a"⟩ .eq .null)) := by
      refine (parse_print_eq_ok_iff (canonical_grouped hcanonical 128)).2 ⟨rfl, ?_⟩
      rw [nesting_grouped, Node.nesting_comparison]
      exact Nat.le_refl 128
    refine ⟨_, _, effectiveFilter_of_both ?_ hdeep rfl hb, rfl, fun u hu => ?_⟩
    · refine Text.nonBlank_eq_some_iff.2 ⟨rfl, fun hblank => ?_⟩
      have hopening : '(' ∈ (grouped 128 (.comparison ⟨"a"⟩ .eq .null)).print.toList := by
        rw [Node.print, String.toList_ofList, grouped, Nat.repeat, Node.chars]
        exact List.mem_append_left _ List.mem_cons_self
      exact absurd (List.all_eq_true.1 hblank _ hopening) (by decide)
    · have hgroup := Node.Canonical.group (canonical_grouped hcanonical 128)
      have hdepth := ((parse_conjunction_eq_ok_iff hgroup rfl (canonical_of_parse hb).1).1 hu).2
      rw [Node.nesting_and, Node.nestingAll, Node.nesting_group, nesting_grouped,
        Node.nesting_comparison] at hdepth
      exact absurd (Nat.le_trans (Nat.le_max_left _ _) hdepth) (by decide)

end FilterQuery.Search
