import Mathlib
import FilterQuery.Proofs.Decimal.Overflow
import FilterQuery.Proofs.Expression.RoundTrip
import FilterQuery.Query.Compilation

/-! Numbers in filters. A whole one is queried for as it is, or refused where 64 bits do not hold
it, and one with a point is a float, or refused where it rounds to infinity. -/

namespace FilterQuery.Query

open Expression Lexeme Decimal Expression.Parser

def equation (p : Property) (literal : List Char) : String := p.name ++ " eq " ++ .ofList literal

def underRoot (p : Property) (query : Json) : Json :=
  match p.nestedRoot? with
  | none => query
  | some root => .single "nested" (.object
      [("path", .string root), ("query", query), ("score_mode", .string "none")])

def wholeValue (negative : Bool) (digits : List Char) : Int :=
  if negative then -(Nat.ofDigitChars 10 digits 0 : Int) else Nat.ofDigitChars 10 digits 0

/-- That the filter for this literal is read, and its query has the number `n`. -/
def QueriesFor (p : Property) (literal : List Char) (n : Number) : Prop :=
  ∃ tree, parse (equation p literal) = .ok tree ∧
    (compile tree).map Clause.toJson =
      .ok (underRoot p (.single "term" (.single p.name (.number n))))

/-- That the filter for this literal is refused where the literal starts. -/
def Refused (p : Property) (literal : List Char) : Prop :=
  parse (equation p literal) = .error (.parse
    ⟨.representableNumber, ⟨.numberLiteral, .ofList literal, (p.name ++ " eq ").utf8ByteSize⟩⟩)

section
variable {p : Property} {literal : List Char} {n : Number}

theorem compile_equation (p : Property) (n : Number) :
    (compile (.comparison p .eq (.number n))).map Clause.toJson =
      .ok (underRoot p (.single "term" (.single p.name (.number n)))) := by
  have hcompile : compile (.comparison p .eq (.number n)) =
      .ok (within p.nestedRoot? (.term p.name (.number n))) := rfl
  rw [hcompile]
  unfold within underRoot
  cases p.nestedRoot? <;> rfl

/-! ## Tokens -/

theorem tokenize_equation (hp : p.Named) (h : Spelled .numberLiteral literal) :
    tokenize (equation p literal) = .ok ([⟨.identifier, p.name, 0⟩] ++
      [⟨.comparisonOperator, "eq", p.name.utf8ByteSize + 1⟩] ++
      [⟨.numberLiteral, .ofList literal, (p.name ++ " eq ").utf8ByteSize⟩,
        .atEnd (equation p literal).utf8ByteSize]) := by
  have hword : Spelled .comparisonOperator ['e', 'q'] := spelled_word rfl rfl (by decide)
  have htext : (equation p literal).toList =
      p.name.toList ++ ' ' :: (['e', 'q'] ++ ' ' :: (literal ++ [])) := by
    simp only [equation, String.toList_append, String.toList_ofList, List.append_nil]
    rw [List.append_assoc]
    rfl
  have hend : Separated [] := nofun
  have hname : Text.byteLength p.name.toList = p.name.utf8ByteSize := by
    rw [← Text.utf8ByteSize_ofList, String.ofList_toList]
  have hoffset : (p.name ++ " eq ").utf8ByteSize = p.name.utf8ByteSize + 4 :=
    String.utf8ByteSize_append
  have hstop : (equation p literal).utf8ByteSize =
      p.name.utf8ByteSize + 4 + Text.byteLength literal := by
    rw [equation, String.utf8ByteSize_append, hoffset, Text.utf8ByteSize_ofList]
  rw [tokenize, htext, scan_spelled (spelled_of_named hp) (separated_blank _),
    scan_blank (by decide), scan_spelled hword (separated_blank _), scan_blank (by decide),
    scan_spelled h hend, scan, hname, hoffset, hstop, String.ofList_toList, Nat.zero_add]
  rfl

/-! ## Trees -/

theorem parse_of_tokenize {input : String} {ts : List Token} (h : tokenize input = .ok ts) :
    parse input = (parseTokens ts).mapError .parse := by
  rw [parse, h]
  rfl

theorem parse_equation (hp : p.Named) (h : Spelled .numberLiteral literal) :
    parse (equation p literal) =
      match number? (.ofList literal) with
      | some n => .ok (.comparison p .eq (.number n))
      | none => .error (.parse ⟨.representableNumber,
        ⟨.numberLiteral, .ofList literal, (p.name ++ " eq ").utf8ByteSize⟩⟩) := by
  have hfold : Text.foldCase "eq" = Operator.eq.spelling := by decide
  have hoperator : Grammar.IsOperator
      ⟨.comparisonOperator, "eq", p.name.utf8ByteSize + 1⟩ .eq := .comparison rfl (.inl hfold)
  have hsteps : Steps .start ([⟨.identifier, p.name, 0⟩] ++
      [⟨.comparisonOperator, "eq", p.name.utf8ByteSize + 1⟩]) ⟨.empty, [], .literal p .eq⟩ :=
    .cons (.property rfl) (Step.operator hoperator).steps
  have hnumber : TokenKind.numberLiteral ≠ .endOfInput := nofun
  rw [parse_of_tokenize (tokenize_equation hp h), parseTokens, hsteps.run_eq, State.run,
    if_neg hnumber]
  simp only [State.read, Parser.literal]
  cases number? (.ofList literal) <;> rfl

theorem queriesFor_of_number? (hp : p.Named) (h : Spelled .numberLiteral literal)
    (hn : number? (.ofList literal) = some n) : QueriesFor p literal n := by
  refine ⟨.comparison p .eq (.number n), ?_, compile_equation p n⟩
  rw [parse_equation hp h, hn]

theorem refused_iff (hp : p.Named) (h : Spelled .numberLiteral literal) :
    Refused p literal ↔ number? (.ofList literal) = none := by
  unfold Refused
  rw [parse_equation hp h]
  cases number? (.ofList literal) <;> simp

theorem exists_parse_eq_ok_iff (hp : p.Named) (h : Spelled .numberLiteral literal) :
    (∃ tree, parse (equation p literal) = .ok tree) ↔ ¬Refused p literal := by
  rw [refused_iff hp h, parse_equation hp h]
  cases number? (.ofList literal) <;> simp

/-! ## Numbers -/

variable {whole fraction : List Char}

theorem number?_whole (negative : Bool) (hwhole : Digits whole) :
    number? (.ofList (signed negative whole)) = Number.ofInt? (wholeValue negative whole) := by
  have hpoint := point_not_mem_signed negative hwhole.2
  rw [number?, String.toList_ofList, if_neg (mt List.contains_iff_mem.1 hpoint),
    readInt?_signed negative hwhole]
  rfl

theorem number?_fraction (negative : Bool) (whole fraction : List Char) :
    number? (.ofList (signed negative (whole ++ '.' :: fraction))) =
      (Binary64.ofText? (signed negative (whole ++ '.' :: fraction))).map .float := by
  rw [number?, String.toList_ofList,
    if_pos (List.contains_iff_mem.2 (point_mem_signed negative whole fraction))]

end

/-- A whole number, zeros before it or not, is queried for exactly where 64 bits hold it, signed or
not, and the filter is refused at the number otherwise. With digits behind a point it is a float,
and the filter is refused exactly where that would be infinite. -/
theorem numbers_queried_for_or_refused {p : Property} (hp : p.Named) (negative : Bool)
    {whole : List Char} (hwhole : Digits whole) :
    let v := wholeValue negative whole
    ((∃ tree, parse (equation p (signed negative whole)) = .ok tree) ↔
      -2 ^ 63 ≤ v ∧ v ≤ 2 ^ 64 - 1) ∧
    (∀ fits : -2 ^ 63 ≤ v ∧ v < 2 ^ 64, QueriesFor p (signed negative whole) (.int v fits)) ∧
    (¬(-2 ^ 63 ≤ v ∧ v ≤ 2 ^ 64 - 1) → Refused p (signed negative whole)) ∧
    ∀ fraction, Digits fraction →
      let literal := signed negative (whole ++ '.' :: fraction)
      (Refused p literal ↔
        10 ^ fraction.length * Binary64.infinityThreshold ≤
          Nat.ofDigitChars 10 (whole ++ fraction) 0) ∧
      (¬Refused p literal →
        ∃ x, Binary64.ofText? literal = some x ∧ QueriesFor p literal (.float x)) := by
  intro v
  have hspelled := spelled_whole negative hwhole
  have hnumber : number? (.ofList (signed negative whole)) = Number.ofInt? v :=
    number?_whole negative hwhole
  have hrange : -2 ^ 63 ≤ v ∧ v ≤ 2 ^ 64 - 1 ↔ -2 ^ 63 ≤ v ∧ v < 2 ^ 64 := by
    rw [Int.le_sub_one_iff]
  have hrefused : Refused p (signed negative whole) ↔ ¬(-2 ^ 63 ≤ v ∧ v < 2 ^ 64) := by
    rw [refused_iff hp hspelled, hnumber, Number.ofInt?_eq_none_iff]
  refine ⟨?_, fun fits => ?_, ?_, fun fraction hfraction => ?_⟩
  · rw [exists_parse_eq_ok_iff hp hspelled, hrefused, not_not, hrange]
  · refine queriesFor_of_number? hp hspelled ?_
    rw [hnumber, Number.ofInt?_eq_some_iff]
    exact ⟨fits, rfl⟩
  · rw [hrange, hrefused]
    exact id
  intro literal
  have hpoint := number?_fraction negative whole fraction
  have hfloat : Spelled .numberLiteral literal :=
    spelled_number negative hwhole (.present hfraction)
  have hrefused : Refused p literal ↔ Binary64.ofText? literal = none := by
    rw [refused_iff hp hfloat, hpoint, Option.map_eq_none_iff]
  refine ⟨hrefused.trans (Binary64.ofText?_signed_eq_none_iff hwhole hfraction), fun h => ?_⟩
  obtain ⟨x, hx⟩ := Option.ne_none_iff_exists'.1 (mt hrefused.2 h)
  refine ⟨x, hx, queriesFor_of_number? hp hfloat ?_⟩
  rw [hpoint, hx]
  rfl

/-- The least whole number with zeros before it, the one behind the greatest, which a float can be,
and digits that are too many for a float. -/
theorem numbers_queried_for_or_refused_at_limits :
    let p : Property := ⟨"order.total"⟩
    let least := "009223372036854775808".toList
    let beyond := "18446744073709551616".toList
    let huge := ['2'] ++ List.replicate 308 '0'
    p.Named ∧ Digits least ∧ Digits beyond ∧ Digits huge ∧ Digits ['0'] ∧
      QueriesFor p ('-' :: least) (.int (-2 ^ 63) (by decide)) ∧ Refused p beyond ∧
      Refused p ('-' :: (huge ++ ['.', '0'])) ∧ ¬Refused p (beyond ++ ['.', '0']) := by
  intro p least beyond huge
  have hp : p.Named := ⟨by decide, by decide⟩
  have hdigits {cs : List Char} (hne : cs ≠ []) (hall : cs.all Char.isDigit) : Digits cs :=
    ⟨hne, List.all_eq_true.1 hall⟩
  have hleast : Digits least := hdigits (by decide) (by decide)
  have hbeyond : Digits beyond := hdigits (by decide) (by decide)
  have hhuge : Digits huge := (hdigits (by decide) (by decide)).append isDigit_of_mem_zeros
  have hzero : Digits ['0'] := hdigits (by decide) (by decide)
  refine ⟨hp, hleast, hbeyond, hhuge, hzero, ?_, ?_, ?_, ?_⟩
  · exact (numbers_queried_for_or_refused hp true hleast).2.1 (by decide)
  · exact (numbers_queried_for_or_refused hp false hbeyond).2.2.1 (by decide)
  · have hvalue : Nat.ofDigitChars 10 (huge ++ ['0']) 0 = natOfDigits ['2'] * 10 ^ 309 := by
      rw [List.append_assoc, ← List.replicate_succ']
      exact natOfDigits_append_zeros ['2'] 309
    refine ((numbers_queried_for_or_refused hp true hhuge).2.2.2 ['0'] hzero).1.2 ?_
    rw [hvalue]
    decide +kernel
  · refine mt ((numbers_queried_for_or_refused hp false hbeyond).2.2.2 ['0'] hzero).1.1 ?_
    decide +kernel

end FilterQuery.Query
