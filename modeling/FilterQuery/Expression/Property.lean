/-! References to document fields by dotted path. -/

namespace FilterQuery.Expression

structure Property where
  name : String
  deriving DecidableEq, Repr

namespace Property

def isDotted (p : Property) : Bool := p.name.toList.contains '.'

/-- The text before the first dot, unless it is empty. -/
def nestedRoot? (p : Property) : Option String :=
  let root := p.name.toList.takeWhile (· ≠ '.')
  if p.isDotted && !root.isEmpty then some (.ofList root) else none

/-- That a property is one of nested documents, which stand under `path`. -/
structure Under (p : Property) (path : String) : Prop where
  nonempty : path ≠ ""
  dotless : '.' ∉ path.toList
  dotted : ∃ rest, p.name = path ++ "." ++ rest

theorem takeWhile_of_dotless {front : List Char} (h : '.' ∉ front) (rest : List Char) :
    (front ++ '.' :: rest).takeWhile (· ≠ '.') = front := by
  have hfront : ∀ c ∈ front, decide (c ≠ '.') = true := by
    intro c hc
    apply decide_eq_true
    rintro rfl
    exact h hc
  rw [List.takeWhile_append_of_pos hfront]
  simp

theorem nestedRoot?_eq_some_iff {p : Property} {path : String} :
    p.nestedRoot? = some path ↔ p.Under path := by
  unfold nestedRoot? isDotted
  constructor
  · intro h
    simp only [Option.ite_none_right_eq_some, Bool.and_eq_true, List.contains_iff_mem,
      Bool.not_eq_true', List.isEmpty_eq_false_iff, Option.some.injEq] at h
    obtain ⟨⟨hdot, hne⟩, rfl⟩ := h
    obtain ⟨front, rest, hname, hdotless⟩ := List.eq_append_cons_of_mem hdot
    rw [hname, takeWhile_of_dotless hdotless] at hne ⊢
    refine ⟨by simpa using hne, by simpa using hdotless, .ofList rest, ?_⟩
    apply String.toList_inj.1
    simp [hname]
  · rintro ⟨hne, hdotless, rest, hname⟩
    have hlist : p.name.toList = path.toList ++ '.' :: rest.toList := by simp [hname]
    rw [hlist, takeWhile_of_dotless hdotless]
    simp [hne]

end Property

end FilterQuery.Expression
