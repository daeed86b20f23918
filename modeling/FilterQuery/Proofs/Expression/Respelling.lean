import Mathlib
import FilterQuery.Expression.Basic
import FilterQuery.Proofs.Expression.LongestMatch

/-! Other spellings of a filter. The parser reads of a reserved word its letters in lower case, and
of an operator what it stands for, so that the tokens may be written in another way, with any blanks
between them. -/

namespace FilterQuery.Expression

open Lexeme Expression.Parser

def aliases : List (String × String) :=
  [("eq", "="), ("ne", "!="), ("gt", ">"), ("ge", ">="), ("lt", "<"), ("le", "<=")]

/-- The text of a token, and another for the same: a reserved word may be in other letters, and a
comparison that has a word may have its symbol instead, or the other way round. -/
inductive Respelled : String → String → Prop where
  | same (text : String) : Respelled text text
  | cased {text other : String} {kind : TokenKind} : Reserved (Text.foldCase text) kind →
      Text.foldCase other = Text.foldCase text → Respelled text other
  | symbol {text symbol : String} : (Text.foldCase text, symbol) ∈ aliases → Respelled text symbol
  | word {symbol other : String} : (Text.foldCase other, symbol) ∈ aliases → Respelled symbol other

/-- Tokens written again one behind the other, with blanks between them. -/
inductive Rewritten : List Token → List Char → Prop where
  | last {t : Token} {text : String} {gap : List Char} : Respelled t.text text →
      (∀ c ∈ gap, Text.isBlank c) → Rewritten [t] (text.toList ++ gap)
  | more {t u : Token} {ts : List Token} {text : String} {gap rest : List Char} :
      Respelled t.text text → gap ≠ [] → (∀ c ∈ gap, Text.isBlank c) → Rewritten (u :: ts) rest →
      Rewritten (t :: u :: ts) (text.toList ++ (gap ++ rest))

/-! ## Words in other letters -/

theorem class_of_toLower {p : Char → Bool} (hp : ∀ c : Char, c.isAlpha → p c) {c : Char}
    (h : p c.toLower) : p c := by
  unfold Char.toLower at h
  split at h
  · next hupper =>
    refine hp c ?_
    simp only [Char.isAlpha, Char.isUpper, Bool.or_eq_true, decide_eq_true_eq]
    exact .inl hupper
  · exact h

theorem isWordStart_of_toLower {c : Char} (h : isWordStart c.toLower) : isWordStart c :=
  class_of_toLower (fun c hc => by simp [isWordStart, hc]) h

theorem isWordChar_of_toLower {c : Char} (h : isWordChar c.toLower) : isWordChar c :=
  class_of_toLower (fun c hc => by simp [isWordChar, Char.isAlphanum, hc]) h

theorem spelled_of_reserved {text : String} {kind : TokenKind}
    (h : Reserved (Text.foldCase text) kind) : Spelled kind text.toList := by
  have hwords : ∀ e ∈ reserved, e.1.toList.head?.any isWordStart ∧ e.1.toList.all isWordChar ∧
      reserved.lookup e.1 = some e.2 := by decide
  obtain ⟨hstart, hchars, hlookup⟩ := hwords _ (mem_reserved_iff.2 h)
  have hkind : wordKind text = kind := by rw [wordKind, hlookup, Option.getD_some]
  rw [Text.foldCase, String.toList_ofList] at hstart hchars
  cases htext : text.toList with
  | nil => simp [htext] at hstart
  | cons c cs =>
    rw [htext, List.map_cons] at hstart hchars
    obtain ⟨-, hcs⟩ := List.forall_mem_cons.1 (List.all_eq_true.1 hchars)
    refine hkind ▸ ?_
    rw [← String.ofList_toList (s := text), htext]
    refine .word (isWordStart_of_toLower hstart) fun d hd => ?_
    exact isWordChar_of_toLower (hcs _ (List.mem_map_of_mem hd))

theorem reserved_of_alias {word symbol : String} (h : (word, symbol) ∈ aliases) :
    Reserved word .comparisonOperator := by
  have hreserved : ∀ e ∈ aliases, (e.1, TokenKind.comparisonOperator) ∈ reserved := by decide
  exact mem_reserved_iff.1 (hreserved _ h)

theorem spelled_of_alias {word symbol : String} (h : (word, symbol) ∈ aliases) :
    Spelled .comparisonOperator symbol.toList := by
  have hsymbols : ∀ e ∈ aliases, e.2.toList ∈ symbols := by decide
  exact spelled_of_mem_symbols (hsymbols _ h)

theorem ofText?_of_alias {text symbol : String} (h : (Text.foldCase text, symbol) ∈ aliases) :
    Operator.ofText? text = Operator.ofText? symbol := by
  have hsame : ∀ e ∈ aliases, Operator.spellings.lookup e.1 = Operator.ofText? e.2 := by decide
  exact hsame _ h

theorem Respelled.spelled {text other : String} {kind : TokenKind} (h : Respelled text other)
    (hspelled : Spelled kind text.toList) : Spelled kind other.toList := by
  cases h with
  | same => exact hspelled
  | cased hmem hother =>
    rw [kind_unique hspelled (spelled_of_reserved hmem)]
    exact spelled_of_reserved (hother ▸ hmem)
  | symbol hmem =>
    rw [kind_unique hspelled (spelled_of_reserved (reserved_of_alias hmem))]
    exact spelled_of_alias hmem
  | word hmem =>
    rw [kind_unique hspelled (spelled_of_alias hmem)]
    exact spelled_of_reserved (reserved_of_alias hmem)

/-! ## What the parser reads of a token -/

structure Alike (t u : Token) : Prop where
  kind : u.kind = t.kind
  literal : Parser.literal u = Parser.literal t
  operator : operator? u = operator? t
  function : t.kind = .functionName → FunctionName.ofText? u.text = FunctionName.ofText? t.text
  property : t.kind = .identifier → u.text = t.text

theorem Alike.of_text {t u : Token} (hkind : u.kind = t.kind) (htext : u.text = t.text) :
    Alike t u := by
  obtain ⟨kind, text, offset⟩ := t
  obtain ⟨_, _, offset'⟩ := u
  obtain rfl := hkind
  obtain rfl := htext
  exact ⟨rfl, rfl, rfl, fun _ => rfl, fun _ => rfl⟩

theorem Alike.of_reserved {t u : Token} (hkind : u.kind = t.kind)
    (hmem : Reserved (Text.foldCase t.text) t.kind)
    (htext : Text.foldCase u.text = Text.foldCase t.text) : Alike t u := by
  have hkinds : ∀ e ∈ reserved,
      e.2 ≠ .identifier ∧ e.2 ≠ .stringLiteral ∧ e.2 ≠ .numberLiteral := by decide
  obtain ⟨hidentifier, hstring, hnumber⟩ := hkinds _ (mem_reserved_iff.2 hmem)
  have hoperator : Operator.ofText? u.text = Operator.ofText? t.text := by
    rw [Operator.ofText?, htext, Operator.ofText?]
  have hfunction : FunctionName.ofText? u.text = FunctionName.ofText? t.text := by
    rw [FunctionName.ofText?, htext, FunctionName.ofText?]
  refine ⟨hkind, ?_, ?_, fun _ => hfunction, fun h => absurd h hidentifier⟩
  · unfold Parser.literal
    rw [hkind, htext]
    split
    · next hkind => exact absurd hkind hstring
    · next hkind => exact absurd hkind hnumber
    · rfl
    · rfl
    · rfl
  · unfold operator?
    rw [hkind, hoperator, hfunction]

theorem Alike.of_operator {t u : Token} (ht : t.kind = .comparisonOperator)
    (hu : u.kind = .comparisonOperator)
    (h : Operator.ofText? u.text = Operator.ofText? t.text) : Alike t u := by
  refine ⟨hu.trans ht.symm, ?_, ?_, fun hkind => ?_, fun hkind => ?_⟩
  · rw [Parser.literal, Parser.literal, ht, hu]
  · rw [operator?, operator?, ht, hu]
    exact h
  · cases ht.symm.trans hkind
  · cases ht.symm.trans hkind

theorem Respelled.alike {t u : Token} (h : Respelled t.text u.text) (hkind : u.kind = t.kind)
    (hspelled : Spelled t.kind t.text.toList) : Alike t u := by
  generalize ht : t.text = text at h
  generalize hu : u.text = other at h
  cases h with
  | same => exact .of_text hkind (hu.trans ht.symm)
  | cased hmem hother =>
    subst ht hu
    have hsame := kind_unique hspelled (spelled_of_reserved hmem)
    exact .of_reserved hkind (hsame ▸ hmem) hother
  | symbol hmem =>
    subst ht hu
    have ht := kind_unique hspelled (spelled_of_reserved (reserved_of_alias hmem))
    exact .of_operator ht (hkind.trans ht) (ofText?_of_alias hmem).symm
  | word hmem =>
    subst ht hu
    have ht := kind_unique hspelled (spelled_of_alias hmem)
    exact .of_operator ht (hkind.trans ht) (ofText?_of_alias hmem)

theorem Alike.read_eq {t u : Token} (h : Alike t u) (s : State) : s.read u = s.read t := by
  obtain ⟨level, outer, place⟩ := s
  cases place with
  | operand =>
    unfold State.read State.readOperand
    simp only
    rw [h.kind]
    split
    · rfl
    · rfl
    · next hkind => rw [h.function hkind]
    · next hkind => rw [h.property hkind]
    · rfl
  | continuation =>
    unfold State.read State.readContinuation
    simp only
    rw [h.kind]
  | operator p =>
    unfold State.read
    simp only
    rw [h.operator]
  | literal p op | callLiteral f p =>
    unfold State.read
    simp only
    rw [h.literal]
  | callProperty f =>
    unfold State.read State.expect
    simp only
    rw [h.kind]
    split
    · next hkind => rw [h.property hkind]
    · rfl
  | callOpening f | callComma f p | callClosing f p l =>
    unfold State.read State.expect
    simp only
    rw [h.kind]

theorem run_eq_ok_of_alike {ts us : List Token} (h : List.Forall₂ Alike ts us) {s : State}
    {stop stop' : Nat} {n : Node} (hn : s.run stop ts = .ok n) : s.run stop' us = .ok n := by
  have hfinish (s : State) (t u : Token) (hn : State.run.finish s t = .ok n) :
      State.run.finish s u = .ok n := by
    unfold State.run.finish at hn ⊢
    split at hn
    · exact hn
    · cases hn
  induction h generalizing s with
  | nil => exact hfinish s _ _ hn
  | @cons t u ts us hhead _ ih =>
    rw [State.run] at hn ⊢
    rw [hhead.kind, hhead.read_eq]
    split at hn
    · next hend =>
      rw [if_pos hend]
      exact hfinish s t u hn
    · next hend =>
      rw [if_neg hend]
      split at hn
      · exact ih hn
      · cases hn

/-! ## Tokens written again -/

theorem separated_of_blanks {gap r : List Char} (hgap : ∀ c ∈ gap, Text.isBlank c)
    (hr : gap = [] → r = []) : Separated (gap ++ r) := by
  cases gap with
  | nil =>
    rw [hr rfl]
    exact nofun
  | cons c gap =>
    have hc := List.contains_iff_mem.1 (hgap c List.mem_cons_self)
    exact separated_cons.2 (List.mem_append_left _ hc)

theorem scan_of_rewritten {ts : List Token} {body : List Char} (h : Rewritten ts body)
    (hts : ∀ t ∈ ts, Spelled t.kind t.text.toList) (offset : Nat) :
    ∃ us stop, scan offset 0 body = .ok (us ++ [.atEnd stop]) ∧ List.Forall₂ Alike ts us := by
  induction h generalizing offset with
  | @last t text gap htext hgap =>
    have ht := hts t List.mem_cons_self
    have hspelled := htext.spelled ht
    have hseparated : Separated gap := gap.append_nil ▸ separated_of_blanks hgap fun _ => rfl
    have hend := scan_blanks hgap (offset + Text.byteLength text.toList) []
    rw [List.append_nil] at hend
    let u : Token := ⟨t.kind, text, offset⟩
    refine ⟨[u], offset + Text.byteLength text.toList + Text.byteLength gap, ?_,
      .cons (htext.alike rfl ht) .nil⟩
    rw [scan_spelled hspelled hseparated, hend, String.ofList_toList]
    rfl
  | @more t next ts text gap rest htext hne hgap _ ih =>
    obtain ⟨ht, hnext⟩ := List.forall_mem_cons.1 hts
    have hspelled := htext.spelled ht
    have hseparated : Separated (gap ++ rest) :=
      separated_of_blanks hgap fun hnil => absurd hnil hne
    obtain ⟨us, stop, hus, halike⟩ :=
      ih hnext (offset + Text.byteLength text.toList + Text.byteLength gap)
    let u : Token := ⟨t.kind, text, offset⟩
    refine ⟨u :: us, stop, ?_, .cons (htext.alike rfl ht) halike⟩
    rw [scan_spelled hspelled hseparated, scan_blanks hgap, hus, String.ofList_toList]
    rfl

/-- The tree of a filter is that of every text in which its tokens are written again, in the same
order, with blanks between any two and perhaps about them all. -/
theorem parse_of_respelled {input : String} {n : Node} (h : parse input = .ok n) :
    ∃ ts : List Token, tokenize input = .ok (ts ++ [.atEnd input.utf8ByteSize]) ∧
      ∀ (other : String) (gap body : List Char), other.toList = gap ++ body →
        (∀ c ∈ gap, Text.isBlank c) → Rewritten ts body → parse other = .ok n := by
  obtain ⟨all, hall, hn⟩ := Fallible.bind_eq_ok_iff.1 h
  rw [Fallible.mapError_eq_ok_iff] at hall hn
  obtain ⟨ts, rfl, hts⟩ := spelled_of_tokenize hall
  refine ⟨ts, hall, fun other gap body hother hgap hbody => ?_⟩
  obtain ⟨us, stop, hus, halike⟩ := scan_of_rewritten hbody hts (0 + Text.byteLength gap)
  have htokens : tokenize other = .ok (us ++ [.atEnd stop]) := by
    rw [tokenize, hother, scan_blanks hgap, hus]
  have hend : Alike (.atEnd input.utf8ByteSize) (.atEnd stop) := .of_text rfl rfl
  have hrun : parseTokens (us ++ [.atEnd stop]) = .ok n :=
    run_eq_ok_of_alike (List.rel_append halike (.cons hend .nil)) hn
  unfold parse
  rw [htokens]
  exact Fallible.mapError_eq_ok_iff.2 hrun

/-- Words in other letters, a symbol for a word and a word for a symbol, and blanks of several
kinds; what is between quotes and a name are as they were. -/
theorem parse_of_respelled_mixed :
    let n : Node := .logical .and [.comparison ⟨"Not_A"⟩ .ge (.boolean true),
      .comparison ⟨"b"⟩ .ne (.string "And")]
    parse "Not_A>=true AND b ne'And'" = .ok n ∧
      parse "\u2003Not_A gE\u00a0TRUE and\nb != 'And' " = .ok n := by
  intro n
  have h : parse "Not_A>=true AND b ne'And'" = .ok n := by cbv
  let a : Token := ⟨.identifier, "Not_A", 0⟩
  let ge : Token := ⟨.comparisonOperator, ">=", 5⟩
  let true' : Token := ⟨.booleanLiteral, "true", 7⟩
  let and' : Token := ⟨.and, "AND", 12⟩
  let b : Token := ⟨.identifier, "b", 16⟩
  let ne : Token := ⟨.comparisonOperator, "ne", 18⟩
  let quoted : Token := ⟨.stringLiteral, "'And'", 20⟩
  have htokens : tokenize "Not_A>=true AND b ne'And'" =
      .ok ([a, ge, true', and', b, ne, quoted] ++ [.atEnd 25]) := by cbv
  obtain ⟨ts, hts, hother⟩ := parse_of_respelled h
  obtain ⟨rfl, -⟩ := List.append_inj' (Except.ok.inj (hts.symm.trans htokens)) rfl
  have hspace : ∀ c ∈ [' '], Text.isBlank c := List.forall_mem_singleton.2 (by decide)
  have hnewline : ∀ c ∈ ['\n'], Text.isBlank c := List.forall_mem_singleton.2 (by decide)
  have hnobreak : ∀ c ∈ ['\u00a0'], Text.isBlank c := List.forall_mem_singleton.2 (by decide)
  have hwide : ∀ c ∈ ['\u2003'], Text.isBlank c := List.forall_mem_singleton.2 (by decide)
  have hge : Respelled ge.text "gE" := .word (by decide)
  have hboolean : Reserved (Text.foldCase true'.text) .booleanLiteral :=
    mem_reserved_iff.1 (by decide)
  have hconnective : Reserved (Text.foldCase and'.text) .and := mem_reserved_iff.1 (by decide)
  have htrue : Respelled true'.text "TRUE" := .cased hboolean (by decide)
  have hand : Respelled and'.text "and" := .cased hconnective (by decide)
  have hne : Respelled ne.text "!=" := .symbol (by decide)
  -- The tokens from the last one back, each with the blank behind it.
  have hlast : Rewritten [quoted] _ := .last (.same _) hspace
  have hright : Rewritten [b, ne, quoted] _ :=
    .more (.same _) (List.cons_ne_nil _ _) hspace (.more hne (List.cons_ne_nil _ _) hspace hlast)
  have hmiddle : Rewritten [true', and', b, ne, quoted] _ :=
    .more htrue (List.cons_ne_nil _ _) hspace (.more hand (List.cons_ne_nil _ _) hnewline hright)
  have hbody : Rewritten [a, ge, true', and', b, ne, quoted] _ :=
    .more (.same _) (List.cons_ne_nil _ _) hspace
      (.more hge (List.cons_ne_nil _ _) hnobreak hmiddle)
  exact ⟨h, hother _ _ _ (by decide) hwide hbody⟩

end FilterQuery.Expression
