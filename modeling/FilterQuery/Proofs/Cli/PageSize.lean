import FilterQuery.Cli.DryRun
import FilterQuery.Proofs.Fallible
import FilterQuery.Proofs.Query.Assembly

/-! The page that a run of the command line asks for. Whatever size is given, that of the request is
within the settings' limit, and positive. -/

namespace FilterQuery.Cli

open Query

/-- That a request asks for the page that the settings allow: of the size asked for, or the nearest
that is allowed, and behind as many results as pages of that size before it have. -/
structure AsksWithin (s : Settings) (body : Json) (size : UInt32) (offset : UInt64) : Prop where
  size_given : body.get? "size" = some (.ofNat32 size)
  offset_given : body.get? "from" = some (.ofNat64 offset)
  one_le_size : 1 ≤ size.toNat
  size_le_max : size.toNat ≤ s.maxPageSize.toNat
  requested : ∀ n, s.size = some n → 1 ≤ n → n ≤ s.maxPageSize.toNat → (size.toNat : Int) = n
  too_large : ∀ n, s.size = some n → s.maxPageSize.toNat < n → size = s.maxPageSize
  not_positive : ∀ n, s.size = some n → n ≤ 0 → size = 1
  absent : s.size = none → size = s.defaultPageSize
  offset_eq : offset.toNat = (min (max 0 s.page) (2 ^ 32 - 1)).toNat * size.toNat

namespace Settings

variable {s : Settings}

theorem has_eq_false_of_problems (h : s.problems = []) (p : Problem) : s.has p = false := by
  have hall := List.filter_eq_nil_iff.1 h
  cases p <;> exact Bool.eq_false_iff.2 (hall _ (by decide))

theorem pageSizes_of_problems (h : s.problems = []) :
    1 ≤ s.defaultPageSize.toNat ∧ s.defaultPageSize.toNat ≤ s.maxPageSize.toNat := by
  have hzero := of_decide_eq_false (has_eq_false_of_problems h .zeroDefaultPageSize)
  have hmax := of_decide_eq_false (has_eq_false_of_problems h .defaultAboveMax)
  refine ⟨Nat.one_le_iff_ne_zero.2 fun hnone => hzero (UInt32.toNat_inj.1 hnone), ?_⟩
  exact UInt32.le_iff_toNat_le.1 (UInt32.not_lt.1 hmax)

/-- The limit is applied before the size is moved into the range of sizes, which has it as it is. -/
theorem toNat_size_criteria (s : Settings) : (s.criteria.pagination.size.toNat : Int) =
    max 1 (min (s.size.getD s.defaultPageSize.toNat) s.maxPageSize.toNat) := by
  have hmax := s.maxPageSize.toNat_lt
  have hclamp := @Pagination.toNat_clamp 1 (by decide) s.effectiveSize
  have hsize : s.criteria.pagination.size = Pagination.clamp 1 s.effectiveSize := rfl
  rw [hsize, hclamp, effectiveSize]
  omega

theorem toNat_page_criteria (s : Settings) :
    (s.criteria.pagination.page.toNat : Int) = min (max 0 s.page) (2 ^ 32 - 1) :=
  Pagination.toNat_clamp (Int.le_refl 0) s.page

end Settings

open Settings

variable {s : Settings}

theorem asksWithin_assemble (h : s.problems = []) (filter : Option Json) :
    AsksWithin s (Request.assemble s.criteria filter).body s.criteria.pagination.size
      s.criteria.pagination.offset := by
  obtain ⟨hdefault, hmax⟩ := pageSizes_of_problems h
  have hsize := toNat_size_criteria s
  have hpage := toNat_page_criteria s
  constructor
  case size_given => exact Request.get?_assemble s.criteria filter "size"
  case offset_given => exact Request.get?_assemble s.criteria filter "from"
  case one_le_size => omega
  case size_le_max => omega
  case requested =>
    intro n hn hpos hle
    rw [hsize, hn, Option.getD_some]
    omega
  case too_large =>
    intro n hn hlt
    rw [hn, Option.getD_some] at hsize
    exact UInt32.toNat_inj.1 (by omega)
  case not_positive =>
    intro n hn hle
    rw [hn, Option.getD_some] at hsize
    refine UInt32.toNat_inj.1 ?_
    show _ = 1
    omega
  case absent =>
    intro hn
    rw [hn, Option.getD_none] at hsize
    exact UInt32.toNat_inj.1 (by omega)
  case offset_eq => rw [Pagination.toNat_offset, ← hpage, Int.toNat_natCast]

theorem exists_assemble_of_explain {c : Criteria} {scope : Search.Scope} {request : Request}
    (h : explain c scope = .ok request) : ∃ filter, request = Request.assemble c filter := by
  obtain ⟨caller, -, h⟩ := Fallible.bind_eq_ok_iff.1 h
  obtain ⟨filter, -, h⟩ := Fallible.bind_eq_ok_iff.1 h
  obtain ⟨compiled, -, h⟩ := Fallible.bind_eq_ok_iff.1 h
  exact ⟨_, (Except.ok.inj h).symm⟩

theorem exists_assemble_of_runSettings (h : (runSettings s).code = 0) :
    ∃ filter, (runSettings s).stdout =
      (Request.assemble s.criteria filter).body.pretty ++ "\n" := by
  unfold runSettings at h ⊢
  cases hproblems : s.problems with
  | cons p ps =>
    rw [hproblems] at h
    cases h
  | nil =>
    rw [hproblems] at h
    cases hexplain : s.explain with
    | false =>
      rw [hexplain] at h
      cases h
    | true =>
      rw [hexplain] at h
      simp only [if_true] at h ⊢
      unfold explainOutput at h ⊢
      cases hrequest : explain s.criteria s.scope with
      | error refusal =>
        rw [hrequest] at h
        cases h
      | ok request =>
        obtain ⟨filter, rfl⟩ := exists_assemble_of_explain hrequest
        exact ⟨filter, rfl⟩

/-- Of settings without a problem every request asks for a page within the limit, and one that is
printed does. -/
theorem page_size_is_capped {s : Settings} (h : s.problems = []) :
    (∀ filter, ∃ size offset,
      AsksWithin s (Request.assemble s.criteria filter).body size offset) ∧
    ((runSettings s).code = 0 → ∃ body size offset,
      (runSettings s).stdout = body.pretty ++ "\n" ∧ AsksWithin s body size offset) := by
  refine ⟨fun filter => ⟨_, _, asksWithin_assemble h filter⟩, fun hcode => ?_⟩
  obtain ⟨filter, hstdout⟩ := exists_assemble_of_runSettings hcode
  exact ⟨_, _, _, hstdout, asksWithin_assemble h filter⟩

/-- The greatest size that can be asked for, the least one, and none, behind the greatest page, a
negative one, and two of the default size. The request for the first of them is printed. -/
theorem page_size_is_capped_at_the_limits :
    let s : Settings := { collection := "people", maxPageSize := 50, explain := true }
    let greatest : Settings := { s with page := 2 ^ 63 - 1, size := some (2 ^ 63 - 1) }
    let least : Settings := { s with page := -1, size := some (-2 ^ 63) }
    let unsized : Settings := { s with page := 2 }
    let body (s : Settings) : Json := (Request.assemble s.criteria none).body
    greatest.problems = [] ∧ least.problems = [] ∧ unsized.problems = [] ∧
      (runSettings greatest).code = 0 ∧
      (∃ shown : Json, (runSettings greatest).stdout = shown.pretty ++ "\n" ∧
        shown.get? "size" = some (.ofNat32 50)) ∧
      (body least).get? "size" = some (.ofNat32 1) ∧
      (body unsized).get? "size" = some (.ofNat32 10) ∧
      ∃ offset, (body unsized).get? "from" = some (.ofNat64 offset) ∧ offset.toNat = 20 := by
  intro s greatest least unsized body
  have hgreatest : greatest.problems = [] := by decide
  have hleast : least.problems = [] := by decide
  have hunsized : unsized.problems = [] := by decide
  have hcode : (runSettings greatest).code = 0 := by decide +kernel
  obtain ⟨shown, size, offset, hshown, hask⟩ := (page_size_is_capped hgreatest).2 hcode
  obtain ⟨size', offset', hask'⟩ := (page_size_is_capped hleast).1 none
  obtain ⟨size'', offset'', hask''⟩ := (page_size_is_capped hunsized).1 none
  obtain rfl : size = 50 := hask.too_large (2 ^ 63 - 1) rfl (by decide)
  obtain rfl : size' = 1 := hask'.not_positive (-2 ^ 63) rfl (by decide)
  obtain rfl : size'' = 10 := hask''.absent rfl
  exact ⟨hgreatest, hleast, hunsized, hcode, ⟨shown, hshown, hask.size_given⟩, hask'.size_given,
    hask''.size_given, offset'', hask''.offset_given, hask''.offset_eq⟩

end FilterQuery.Cli
