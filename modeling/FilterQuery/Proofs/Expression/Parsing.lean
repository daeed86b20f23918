import Mathlib
import FilterQuery.Expression.Basic
import FilterQuery.Proofs.Expression.Derivation
import FilterQuery.Proofs.Expression.Scanning

/-! What is parsed: exactly the filters whose tokens have a derivation that is not too deep, each to
the one tree that it has. -/

namespace FilterQuery.Expression

open Fallible Grammar Expression.Parser

theorem isLiteral_of_number {t : Token} {n : Number} (hkind : t.kind = .numberLiteral)
    (hn : number? t.text = some n) : IsLiteral t (.number n) := by
  unfold number? at hn
  split at hn
  · next hpoint =>
    obtain ⟨x, hx, rfl⟩ := Option.map_eq_some_iff.1 hn
    exact .float hkind (List.contains_iff_mem.1 hpoint) hx
  · next hpoint =>
    obtain ⟨v, hv, hfits⟩ := Option.bind_eq_some_iff.1 hn
    obtain ⟨fits, rfl⟩ := Number.ofInt?_eq_some_iff.1 hfits
    exact .int fits hkind (mt List.contains_iff_mem.2 hpoint) hv

theorem isLiteral_of_spelled {t : Token} {l : Literal}
    (h : Lexeme.Spelled t.kind t.text.toList) (hl : Parser.literal t = .ok l) :
    IsLiteral t l := by
  unfold Parser.literal at hl
  split at hl
  · next hkind =>
    cases hl
    rw [hkind] at h
    obtain ⟨cs, hcs⟩ := Lexeme.quoted_of_spelled h
    rw [unquote_of_quoted hcs]
    refine .string hkind ?_
    rwa [String.toList_ofList]
  · next hkind =>
    split at hl
    · next n hn =>
      cases hl
      exact isLiteral_of_number hkind hn
    · cases hl
  · next hkind =>
    cases hl
    rw [hkind] at h
    obtain ⟨b, hb⟩ := Lexeme.foldCase_of_spelled h
    refine .boolean hkind ?_
    rw [hb]
    cases b <;> rfl
  · next hkind =>
    cases hl
    exact .null hkind
  · cases hl

theorem parseTokens_eq_ok_iff {ts : List Token} {n : Node} {stop : Nat}
    (hts : ∀ t ∈ ts, Lexeme.Spelled t.kind t.text.toList) :
    parseTokens (ts ++ [.atEnd stop]) = .ok n ↔ Disjunction ts n ∧ n.nesting ≤ maxDepth := by
  have hend : ∀ t ∈ ts, t.kind ≠ .endOfInput :=
    fun t ht => Lexeme.kind_ne_endOfInput_of_spelled (hts t ht)
  rw [parseTokens, run_eq_ok_iff hend rfl]
  constructor
  · rintro ⟨s, hsteps, hresult⟩
    -- One invariant gives the derivation of the result, the other one its depth.
    have hliteral : ∀ t ∈ ts, ∀ v, Parser.literal t = .ok v → IsLiteral t v :=
      fun t ht _ => isLiteral_of_spelled (hts t ht)
    have hcovers := covers_start.steps hliteral hsteps
    exact ⟨hcovers.disjunction hresult, (fits_start.steps hsteps).nesting_le hresult⟩
  · rintro ⟨h, hdepth⟩
    have hroom : n.nesting + openAbout [] ≤ maxDepth := hdepth
    obtain ⟨l, rfl, hsteps⟩ := h.steps hroom
    exact ⟨_, hsteps, rfl⟩

theorem parse_eq_ok_iff {input : String} {n : Node} :
    parse input = .ok n ↔ ∃ ts : List Token,
      tokenize input = .ok (ts ++ [.atEnd input.utf8ByteSize]) ∧ Disjunction ts n ∧
        n.nesting ≤ maxDepth := by
  unfold parse
  rw [bind_eq_ok_iff]
  constructor
  · rintro ⟨all, hall, hn⟩
    rw [mapError_eq_ok_iff] at hall hn
    obtain ⟨ts, rfl, hts⟩ := Lexeme.spelled_of_tokenize hall
    exact ⟨ts, hall, (parseTokens_eq_ok_iff hts).1 hn⟩
  · rintro ⟨ts, hall, h⟩
    refine ⟨_, mapError_eq_ok_iff.2 hall, mapError_eq_ok_iff.2 ?_⟩
    exact (parseTokens_eq_ok_iff (Lexeme.spelled_of_mem_tokens hall)).2 h

/-- The parser accepts the language of the grammar up to the bound on nesting and the ranges of
numbers, and gives the tree of the derivation. The grammar is unambiguous at every depth. -/
theorem parse_recognises_grammar :
    (∀ (input : String) (n : Node), parse input = .ok n ↔ ∃ ts : List Token,
      tokenize input = .ok (ts ++ [.atEnd input.utf8ByteSize]) ∧ Disjunction ts n ∧
        n.nesting ≤ 128) ∧
      ∀ (ts : List Token) (n m : Node), Disjunction ts n → Disjunction ts m → n = m := by
  refine ⟨fun _ _ => parse_eq_ok_iff, fun ts n m hn hm => ?_⟩
  have hend : NotAhead .and [] ∧ NotAhead .or [] := ⟨nofun, nofun⟩
  exact (hn.unique hm (rfl : ts ++ [] = ts ++ []) hend hend).2

/-- An `or` of three holds the `and` behind it, and no derivation makes it the other way round. -/
theorem parse_recognises_precedence :
    let n : Node := .logical .or [.comparison ⟨"a"⟩ .eq .null, .comparison ⟨"b"⟩ .eq .null,
      .logical .and [.comparison ⟨"c"⟩ .eq .null,
        .logical .not [.call .contains ⟨"d"⟩ (.string "")]]]
    ∃ ts : List Token, tokenize "a=null or b=null or c=null and not contains(d,'')" =
        .ok (ts ++ [.atEnd 49]) ∧ Disjunction ts n ∧ ∀ m, Disjunction ts m → m = n := by
  intro n
  have hparse : parse "a=null or b=null or c=null and not contains(d,'')" = .ok n := by cbv
  obtain ⟨ts, htokens, hn, -⟩ := (parse_recognises_grammar.1 _ n).1 hparse
  exact ⟨ts, htokens, hn, fun m hm => parse_recognises_grammar.2 ts m n hm hn⟩

end FilterQuery.Expression
