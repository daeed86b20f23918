import Mathlib
import FilterQuery.Proofs.Expression.Displacement
import FilterQuery.Proofs.Search.Confinement

/-! Filters as parameters. The criteria have the text without the blanks about it, which is read as
the text itself is, with errors as many bytes nearer to the front as blanks are taken away there. -/

namespace FilterQuery

open Expression Text

def Text.leading (text : String) : Nat := byteLength (text.toList.takeWhile isBlank)

/-- An error of a text, and the same error of the text without the blanks about it. -/
inductive Expression.FilterError.Trimmed (text : String) : FilterError → FilterError → Prop where
  | lex (offset : Nat) (reason : LexReason) :
      Trimmed text (.lex ⟨leading text + offset, reason⟩) (.lex ⟨offset, reason⟩)
  | token {kind : TokenKind} (expected : Expected) (word : String) (offset : Nat) :
      kind ≠ .endOfInput →
      Trimmed text (.parse ⟨expected, kind, word, leading text + offset⟩)
        (.parse ⟨expected, kind, word, offset⟩)
  | atEnd (expected : Expected) :
      Trimmed text (.parse ⟨expected, .atEnd text.utf8ByteSize⟩)
        (.parse ⟨expected, .atEnd (byteLength (trim text.toList))⟩)

namespace Search

open Fallible

theorem found_cases {input : String} {e : ParseError} (h : parse input = .error (.parse e)) :
    e.found.kind ≠ .endOfInput ∨ e.found = .atEnd input.utf8ByteSize := by
  rcases bind_eq_error_iff.1 h with h | ⟨all, hall, h⟩
  · obtain ⟨_, -, ⟨⟩⟩ := mapError_eq_error_iff.1 h
  obtain ⟨_, herror, ⟨⟩⟩ := mapError_eq_error_iff.1 h
  obtain ⟨ts, rfl, hspelled⟩ := Lexeme.spelled_of_tokenize (mapError_eq_ok_iff.1 hall)
  have hkinds : ∀ t ∈ ts, t.kind ≠ .endOfInput := fun t ht =>
    Lexeme.kind_ne_endOfInput_of_spelled (hspelled t ht)
  obtain ⟨k, -, hfound⟩ := Expression.Parser.viableUpTo_of_error hkinds herror
  rcases List.mem_append.1 (List.mem_of_getElem? hfound) with hmem | hmem
  · exact .inl (hkinds _ hmem)
  · exact .inr (List.mem_singleton.1 hmem)

theorem trimmed_displaced {text : String} {e : FilterError}
    (h : parse (.ofList (trim text.toList)) = .error e) :
    (e.displaced (leading text) text.utf8ByteSize).Trimmed text e := by
  cases e with
  | lex e => exact .lex e.offset e.reason
  | parse e =>
    obtain ⟨expected, found⟩ := e
    rcases found_cases h with hkind | hfound
    · have hfound := found.displaced_of_ne hkind (leading text) text.utf8ByteSize
      have htoken : FilterError.Trimmed text _ _ :=
        .token expected found.text found.offset hkind
      rw [FilterError.displaced, ParseError.displaced, hfound]
      exact htoken
    · obtain rfl : found = .atEnd _ := hfound
      rw [utf8ByteSize_ofList]
      exact .atEnd expected

theorem parse_eq_parse_trim (text : String) :
    parse text = (parse (.ofList (trim text.toList))).mapError
      (·.displaced (leading text) text.utf8ByteSize) := by
  obtain ⟨tail, htail, htext⟩ := exists_trim text.toList
  have hgap := List.all_eq_true.1 (List.all_takeWhile (p := isBlank) (l := text.toList))
  rw [← String.toList_ofList (l := trim text.toList)] at htext
  exact parse_of_blanks htext hgap htail

section
variable (search sort : Option String) (page size : Option Int) (text : String)

theorem filter?_ofParams :
    (Criteria.ofParams search (some text) sort page size).filter? = trimmed text :=
  trimmed_bind_nonBlank text

theorem callerFilter_ofParams (htext : ¬text.toList.all isBlank) :
    callerFilter (.ofParams search (some text) sort page size) =
      (parseFilter (.ofList (trim text.toList))).map some := by
  rw [callerFilter, filter?_ofParams, trimmed, nonBlank, if_neg htext, Option.map_some]

theorem callerFilter_of_blank (htext : text.toList.all isBlank) :
    callerFilter (.ofParams search (some text) sort page size) = .ok none := by
  rw [callerFilter, filter?_ofParams, trimmed, nonBlank, if_pos htext, Option.map_none]

end

/-- The filter of a parameter has the tree of its text, or its error but for the blanks taken away.
A blank parameter is no filter. -/
theorem parameter_is_read_as_its_text (search sort : Option String) (page size : Option Int)
    (text : String) :
    (¬text.toList.all isBlank →
        (∀ t, callerFilter (.ofParams search (some text) sort page size) = .ok (some t) ↔
          parse text = .ok t) ∧
        ∀ e, parse text = .error e → ∃ e', e.Trimmed text e' ∧
          callerFilter (.ofParams search (some text) sort page size) =
            .error (.invalidFilter e')) ∧
      (text.toList.all isBlank →
        callerFilter (.ofParams search (some text) sort page size) = .ok none) := by
  refine ⟨fun htext => ⟨fun t => ?_, fun e he => ?_⟩, callerFilter_of_blank _ _ _ _ text⟩
  · rw [callerFilter_ofParams _ _ _ _ _ htext, map_parseFilter_eq_ok_iff,
      parse_eq_parse_trim text, mapError_eq_ok_iff]
    simp only [Option.some.injEq, exists_eq_right]
  · rw [parse_eq_parse_trim text] at he
    obtain ⟨e', he', rfl⟩ := mapError_eq_error_iff.1 he
    refine ⟨e', trimmed_displaced he', ?_⟩
    rw [callerFilter_ofParams _ _ _ _ _ htext, parseFilter, he']
    rfl

/-- The blanks behind are in a literal that is not closed, or in front of the end at which a value
is missing; those in front are one of two bytes and one of one. -/
theorem parameter_is_read_as_its_text_unfinished :
    let c (text : String) := Criteria.ofParams none (some text) none none none
    let open' := "\u00a0 a eq 'b\t"
    let short := "\u00a0 a eq \t"
    (parse open' = .error (.lex ⟨3 + 5, .unterminatedString⟩) ∧
        ∃ e, FilterError.Trimmed open' (.lex ⟨3 + 5, .unterminatedString⟩) e ∧
          callerFilter (c open') = .error (.invalidFilter e)) ∧
      (parse short = .error (.parse ⟨.literal, .atEnd 9⟩) ∧
        ∃ e, FilterError.Trimmed short (.parse ⟨.literal, .atEnd 9⟩) e ∧
          callerFilter (c short) = .error (.invalidFilter e)) ∧
      callerFilter (c "\u2003\n") = .ok none := by
  intro c open' short
  have hopen : parse open' = .error (.lex ⟨3 + 5, .unterminatedString⟩) := by cbv
  have hshort : parse short = .error (.parse ⟨.literal, .atEnd 9⟩) := by cbv
  have herror (text : String) := (parameter_is_read_as_its_text none none none none text).1
  have hblank := (parameter_is_read_as_its_text none none none none "\u2003\n").2
  exact ⟨⟨hopen, (herror open' (by decide)).2 _ hopen⟩,
    ⟨hshort, (herror short (by decide)).2 _ hshort⟩, hblank (by decide)⟩

end Search

end FilterQuery
