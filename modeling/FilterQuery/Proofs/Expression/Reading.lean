import FilterQuery.Proofs.Decimal.Layout
import FilterQuery.Proofs.Expression.Canonical
import FilterQuery.Proofs.Expression.Scanning

/-! Text that is known to be cut into tokens with some property, wherever it stands before a
separator, and the printed terminals of the grammar as such text. -/

namespace FilterQuery.Expression

namespace Lexeme

variable {P Q : List Token → Prop} {cs ds r : List Char}

theorem Separated.append (hds : Separated ds) (hr : Separated r) : Separated (ds ++ r) := by
  cases ds with
  | nil => exact hr
  | cons => exact hds

/-- That `cs` is cut into tokens with `P` before any separator and at any offset. -/
def Reads (cs : List Char) (P : List Token → Prop) : Prop :=
  ∀ r offset, Separated r → ∃ ts, P ts ∧
    scan offset 0 (cs ++ r) = (scan (offset + Text.byteLength cs) 0 r).map (ts ++ ·)

def Then (P Q : List Token → Prop) (ts : List Token) : Prop :=
  ∃ us vs, ts = us ++ vs ∧ P us ∧ Q vs

def One (p : Token → Prop) (ts : List Token) : Prop := ∃ t, ts = [t] ∧ p t

theorem One.mono {p q : Token → Prop} {ts : List Token} (h : One p ts) (hpq : ∀ t, p t → q t) :
    One q ts := by
  obtain ⟨t, rfl, ht⟩ := h
  exact ⟨t, rfl, hpq t ht⟩

theorem map_append_map (e : Except LexError (List Token)) (ts us : List Token) :
    (e.map (us ++ ·)).map (ts ++ ·) = e.map (ts ++ us ++ ·) := by
  cases e with
  | error => rfl
  | ok => exact congrArg Except.ok (List.append_assoc ..).symm

theorem Reads.mono (h : Reads cs P) (hPQ : ∀ ts, P ts → Q ts) : Reads cs Q := by
  intro r offset hr
  obtain ⟨ts, hP, hts⟩ := h r offset hr
  exact ⟨ts, hPQ ts hP, hts⟩

theorem Reads.append (h : Reads cs P) (hds : Separated ds) (h' : Reads ds Q) :
    Reads (cs ++ ds) (Then P Q) := by
  intro r offset hr
  obtain ⟨ts, hP, hts⟩ := h (ds ++ r) offset (hds.append hr)
  obtain ⟨us, hQ, hus⟩ := h' r (offset + Text.byteLength cs) hr
  refine ⟨ts ++ us, ⟨ts, us, rfl, hP, hQ⟩, ?_⟩
  rw [List.append_assoc, hts, hus, map_append_map, Text.byteLength_append, ← Nat.add_assoc]

theorem Reads.blank (h : Reads cs P) : Reads (' ' :: cs) P := by
  intro r offset hr
  obtain ⟨ts, hP, hts⟩ := h r (offset + ' '.utf8Size) hr
  refine ⟨ts, hP, ?_⟩
  rw [List.cons_append, scan_blank (by decide), hts, Text.byteLength_cons, ← Nat.add_assoc]

theorem Reads.leftParen (h : Reads cs P) :
    Reads ('(' :: cs) (Then (One (·.kind = .leftParen)) P) := by
  intro r offset hr
  obtain ⟨ts, hP, hts⟩ := h r (offset + Text.byteLength ['(']) hr
  refine ⟨_ :: ts, ⟨[_], ts, rfl, ⟨⟨.leftParen, .ofList ['('], offset⟩, rfl, rfl⟩, hP⟩, ?_⟩
  rw [List.cons_append, scan_leftParen, hts]
  exact (map_append_map _ [_] ts).trans (by rw [Nat.add_assoc]; rfl)

theorem reads_of_spelled {kind : TokenKind} {p : Token → Prop} (h : Spelled kind cs)
    (hp : ∀ offset, p ⟨kind, .ofList cs, offset⟩) : Reads cs (One p) := by
  intro r offset hr
  exact ⟨_, ⟨_, rfl, hp offset⟩, scan_spelled h hr offset⟩

theorem reads_kind {kind : TokenKind} (h : Spelled kind cs) : Reads cs (One (·.kind = kind)) :=
  reads_of_spelled h fun _ => rfl

theorem Reads.tokenize (h : Reads cs P) :
    ∃ ts, P ts ∧ tokenize (.ofList cs) = .ok (ts ++ [.atEnd (String.ofList cs).utf8ByteSize]) := by
  obtain ⟨ts, hP, hts⟩ := h [] 0 nofun
  refine ⟨ts, hP, ?_⟩
  rw [List.append_nil] at hts
  rw [Expression.tokenize, String.toList_ofList, hts, scan, Text.utf8ByteSize_ofList, Nat.zero_add]
  rfl

end Lexeme

/-! ## Terminals -/

open Decimal Grammar Lexeme

theorem spelled_of_named {p : Property} (h : p.Named) : Spelled .identifier p.name.toList := by
  have hkind := wordKind_of_named h
  obtain ⟨c, cs, hname, hc, hcs⟩ := exists_word_of_named h
  rw [hname]
  refine spelled_word hc hcs ?_
  rwa [← hname, String.ofList_toList]

theorem reads_property {p : Property} (h : p.Named) :
    Reads p.name.toList (One fun t => t.kind = .identifier ∧ t.text = p.name) :=
  reads_of_spelled (spelled_of_named h) fun _ => ⟨rfl, String.ofList_toList⟩

theorem reads_function (f : FunctionName) :
    Reads f.spelling.toList (One (IsFunction · f)) := by
  have hspelled : Spelled .functionName f.spelling.toList := by
    cases f <;> exact spelled_word rfl rfl (by decide)
  have hfold : Text.foldCase f.spelling = f.spelling := by cases f <;> decide
  refine reads_of_spelled hspelled fun _ => ⟨rfl, ?_⟩
  rwa [String.ofList_toList]

theorem reads_operator (op : Operator) : Reads op.spelling.toList (One (IsOperator · op)) := by
  have hfold : Text.foldCase op.spelling = op.spelling := by cases op <;> decide
  have hcomparison (h : Spelled .comparisonOperator op.spelling.toList) :
      Reads op.spelling.toList (One (IsOperator · op)) := by
    refine reads_of_spelled h fun _ => .comparison rfl (.inl ?_)
    rwa [String.ofList_toList]
  have hfunction (f : FunctionName) :
      Reads f.operator.spelling.toList (One (IsOperator · f.operator)) :=
    (reads_function f).mono fun _ hf => hf.mono fun _ => .function
  cases op with
  | eq | ne | gt | ge | lt | le => exact hcomparison (spelled_word rfl rfl (by decide))
  | like | notLike | oneOf | noneOf => exact hcomparison (spelled_of_mem_symbols (by decide))
  | contains => exact hfunction .contains
  | startsWith => exact hfunction .startsWith
  | endsWith => exact hfunction .endsWith

/-! ## Literals -/

theorem spelled_number (negative : Bool) {whole fraction : List Char} (hwhole : Digits whole)
    (hfraction : Fraction fraction) :
    Spelled .numberLiteral (signed negative (whole ++ fraction)) := by
  cases negative with
  | true => exact .number (.inr rfl) hwhole hfraction
  | false => exact .number (.inl rfl) hwhole hfraction

theorem spelled_whole (negative : Bool) {whole : List Char} (hwhole : Digits whole) :
    Spelled .numberLiteral (signed negative whole) := by
  have hnumber := spelled_number negative hwhole .absent
  rwa [List.append_nil] at hnumber

theorem readInt?_intText (v : Int) : readInt? (Number.intText v) = some v := by
  rw [Number.intText, readInt?_signed _ (digits_toDigits _), natOfDigits_toDigits]
  congr 1
  split
  · next hneg =>
    have := of_decide_eq_true hneg
    omega
  · next hneg =>
    have := mt decide_eq_true hneg
    omega

theorem point_not_mem_signed (negative : Bool) {cs : List Char} (h : ∀ c ∈ cs, c.isDigit) :
    '.' ∉ signed negative cs := by
  have hdigits : '.' ∉ cs := fun hmem => by cases h _ hmem
  unfold signed
  split
  · rw [List.mem_cons]
    exact fun h => h.elim (by decide) hdigits
  · exact hdigits

theorem point_mem_signed (negative : Bool) (whole fraction : List Char) :
    '.' ∈ signed negative (whole ++ '.' :: fraction) := by
  have hpoint : '.' ∈ whole ++ '.' :: fraction := List.mem_append_right _ List.mem_cons_self
  unfold signed
  split
  · exact List.mem_cons_of_mem _ hpoint
  · exact hpoint

theorem reads_number (n : Number) : Reads (numberText n) (One (IsLiteral · (.number n))) := by
  cases n with
  | int v fits =>
    have hspelled : Spelled .numberLiteral (Number.intText v) :=
      spelled_whole (v < 0) (digits_toDigits v.natAbs)
    refine reads_of_spelled hspelled fun _ => .int fits rfl ?_ ?_
    · rw [String.toList_ofList]
      exact point_not_mem_signed _ (digits_toDigits _).2
    · rw [String.toList_ofList]
      exact readInt?_intText v
  | float x =>
    obtain ⟨whole, fraction, hplain, hwhole, hfraction, hx⟩ := ofText?_shortest .up x
    rw [numberText, floatText, hplain]
    refine reads_of_spelled (spelled_number x.negative hwhole (.present hfraction)) fun _ => ?_
    refine .float rfl ?_ ?_
    · rw [String.toList_ofList]
      exact point_mem_signed _ _ _
    · rwa [String.toList_ofList]

theorem reads_literal (l : Literal) : Reads l.chars (One (IsLiteral · l)) := by
  cases l with
  | null => exact reads_of_spelled (spelled_word rfl rfl rfl) fun _ => .null rfl
  | string s =>
    refine reads_of_spelled (.string s.toList) fun _ => .string rfl ?_
    rw [String.toList_ofList]
    rfl
  | number n => exact reads_number n
  | boolean b =>
    have hspelled : Spelled .booleanLiteral (toString b).toList := by
      cases b <;> exact spelled_word rfl rfl (by decide)
    have hfold : Text.foldCase (toString b) = toString b := by cases b <;> decide
    refine reads_of_spelled hspelled fun _ => .boolean rfl ?_
    change Text.foldCase (.ofList (toString b).toList) = _
    rwa [String.ofList_toList]

end FilterQuery.Expression
