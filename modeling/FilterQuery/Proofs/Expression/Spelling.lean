import FilterQuery.Expression.Lexeme
import FilterQuery.Expression.Literal
import FilterQuery.Proofs.Decimal.Digits
import FilterQuery.Proofs.Fallible

/-! The texts of the tokens, each kind in its own forms. What is taken for a lexeme has one of them,
and a text of such a form is a lexeme where a separator follows it. -/

namespace FilterQuery.Expression.Lexeme

open Decimal (Digits)

inductive Fraction : List Char → Prop where
  | absent : Fraction []
  | present {ds : List Char} : Digits ds → Fraction ('.' :: ds)

inductive Spelled : TokenKind → List Char → Prop where
  | leftParen : Spelled .leftParen ['(']
  | rightParen : Spelled .rightParen [')']
  | comma : Spelled .comma [',']
  | string (cs : List Char) : Spelled .stringLiteral ('\'' :: doubleQuotes cs ++ ['\''])
  | number {sign whole fraction : List Char} : sign = [] ∨ sign = ['-'] → Digits whole →
      Fraction fraction → Spelled .numberLiteral (sign ++ whole ++ fraction)
  | word {c : Char} {cs : List Char} : isWordStart c → (∀ d ∈ cs, isWordChar d) →
      Spelled (wordKind (.ofList (c :: cs))) (c :: cs)
  | symbol {op : Operator} {s : String} : op.symbol? = some s →
      Spelled .comparisonOperator s.toList

theorem spelled_word {c : Char} {cs : List Char} {kind : TokenKind} (hc : isWordStart c)
    (hcs : cs.all isWordChar) (hkind : wordKind (.ofList (c :: cs)) = kind) :
    Spelled kind (c :: cs) := hkind ▸ .word hc (List.all_eq_true.1 hcs)

theorem spelled_of_mem_symbols {cs : List Char} (h : cs ∈ symbols) :
    Spelled .comparisonOperator cs := by
  rw [← String.toList_ofList (l := cs)] at h ⊢
  obtain ⟨op, hop⟩ := mem_symbols_iff.1 h
  exact .symbol hop

theorem doubleQuotes_cons (c : Char) (cs : List Char) :
    doubleQuotes (c :: cs) = (if c = '\'' then ['\'', '\''] else [c]) ++ doubleQuotes cs := rfl

/-! ## Lexemes are spelled -/

theorem reserved_of_wordKind {word : String} {kind : TokenKind} (h : wordKind word = kind)
    (hkind : kind ≠ .identifier) : Reserved (Text.foldCase word) kind := by
  unfold wordKind at h
  cases hlookup : reserved.lookup (Text.foldCase word) with
  | none =>
    rw [hlookup] at h
    exact absurd h.symm hkind
  | some found =>
    rw [hlookup] at h
    obtain rfl : found = kind := h
    exact mem_reserved_iff.1 (Fallible.mem_of_lookup_eq_some hlookup)

theorem take_of_quotedExtent {cs : List Char} {n : Nat} (h : quotedExtent cs = some n) :
    ∃ ds, cs.take n = doubleQuotes ds ++ ['\''] := by
  fun_induction quotedExtent cs generalizing n with
  | case1 => cases h
  | case2 cs ih =>
    obtain ⟨m, hm, rfl⟩ := Option.map_eq_some_iff.1 h
    obtain ⟨ds, hds⟩ := ih hm
    refine ⟨'\'' :: ds, ?_⟩
    rw [List.take_succ_cons, List.take_succ_cons, hds]
    rfl
  | case3 cs _ =>
    cases h
    exact ⟨[], rfl⟩
  | case4 c cs hpair hquote ih =>
    obtain ⟨m, hm, rfl⟩ := Option.map_eq_some_iff.1 h
    obtain ⟨ds, hds⟩ := ih hm
    refine ⟨c :: ds, ?_⟩
    rw [List.take_succ_cons, hds, doubleQuotes_cons, if_neg hquote]
    rfl

theorem take_length_takeWhile (p : Char → Bool) (cs : List Char) :
    cs.take (cs.takeWhile p).length = cs.takeWhile p :=
  (List.prefix_iff_eq_take.1 (List.takeWhile_prefix p)).symm

theorem forall_mem_takeWhile {p : Char → Bool} {cs : List Char} :
    ∀ c ∈ cs.takeWhile p, p c := List.all_eq_true.1 List.all_takeWhile

theorem take_numberExtent (cs : List Char) :
    ∃ fraction, Fraction fraction ∧
      cs.take (numberExtent cs) = cs.takeWhile Char.isDigit ++ fraction := by
  have hwhole := take_length_takeWhile Char.isDigit cs
  unfold numberExtent
  simp only
  split
  · next ds hdrop =>
    split
    · exact ⟨[], .absent, by rw [hwhole, List.append_nil]⟩
    · next hdigits =>
      refine ⟨'.' :: ds.takeWhile Char.isDigit, .present ⟨?_, forall_mem_takeWhile⟩, ?_⟩
      · exact fun hnil => hdigits (congrArg List.length hnil)
      · rw [Nat.add_assoc, List.take_add, hwhole, hdrop, Nat.add_comm 1, List.take_succ_cons,
          take_length_takeWhile]
  · exact ⟨[], .absent, by rw [hwhole, List.append_nil]⟩

theorem take_of_symbol {c : Char} {cs s : List Char}
    (h : symbols.find? (·.isPrefixOf (c :: cs)) = some s) : c :: cs.take (s.length - 1) = s := by
  have hstart : s <+: c :: cs := by
    have hfound := List.find?_some h
    exact List.isPrefixOf_iff_prefix.1 hfound
  have hnonempty : ∀ s ∈ symbols, s ≠ [] := by decide
  obtain ⟨d, ds, rfl⟩ := List.exists_cons_of_ne_nil (hnonempty s (List.mem_of_find?_eq_some h))
  obtain ⟨rfl, hrest⟩ := List.cons_prefix_cons.1 hstart
  rw [List.length_cons, Nat.add_sub_cancel, ← List.prefix_iff_eq_take.1 hrest]

theorem spelled_of_first {c : Char} {cs : List Char} {kind : TokenKind} {n : Nat}
    (h : first c cs = .ok (kind, n)) : Spelled kind (c :: cs.take n) := by
  unfold first at h
  split at h
  · next hc =>
    cases h
    exact hc ▸ .leftParen
  split at h
  · next hc =>
    cases h
    exact hc ▸ .rightParen
  split at h
  · next hc =>
    cases h
    exact hc ▸ .comma
  split at h
  · next hc =>
    split at h
    · next hn =>
      cases h
      obtain ⟨ds, hds⟩ := take_of_quotedExtent hn
      rw [hds, hc]
      exact .string ds
    · cases h
  split at h
  · next hc =>
    cases h
    obtain ⟨fraction, hfraction, htake⟩ := take_numberExtent cs
    rw [htake]
    rcases Bool.or_eq_true_iff.1 hc with hdigit | hminus
    · refine .number (.inl rfl) ⟨List.cons_ne_nil c _, ?_⟩ hfraction
      exact List.forall_mem_cons.2 ⟨hdigit, forall_mem_takeWhile⟩
    · obtain ⟨hminus, hhead⟩ := Bool.and_eq_true_iff.1 hminus
      obtain rfl := of_decide_eq_true hminus
      refine .number (.inr rfl) ⟨?_, forall_mem_takeWhile⟩ hfraction
      cases cs with
      | nil => cases hhead
      | cons d ds =>
        have hdigit : d.isDigit := hhead
        rw [List.takeWhile_cons_of_pos hdigit]
        exact List.cons_ne_nil _ _
  split at h
  · next hc =>
    cases h
    refine .word hc ?_
    rw [wordExtent, take_length_takeWhile]
    exact forall_mem_takeWhile
  · split at h
    · next s hs =>
      cases h
      rw [take_of_symbol hs]
      exact spelled_of_mem_symbols (List.mem_of_find?_eq_some hs)
    · cases h

/-! ## Kinds with a form of their own -/

theorem kind_ne_endOfInput_of_spelled {kind : TokenKind} {text : List Char}
    (h : Spelled kind text) : kind ≠ .endOfInput := by
  cases h with
  | word =>
    intro hkind
    have hreserved := reserved_of_wordKind hkind nofun
    generalize Text.foldCase _ = word at hreserved
    cases hreserved
  | leftParen | rightParen | comma | string | number | symbol => exact nofun

theorem quoted_of_spelled {text : List Char} (h : Spelled .stringLiteral text) :
    ∃ cs, text = '\'' :: doubleQuotes cs ++ ['\''] := by
  generalize hkind : TokenKind.stringLiteral = kind at h
  cases h with
  | string cs => exact ⟨cs, rfl⟩
  | word =>
    have hreserved := reserved_of_wordKind hkind.symm nofun
    generalize Text.foldCase _ = word at hreserved
    cases hreserved
  | leftParen | rightParen | comma | number | symbol => cases hkind

theorem foldCase_of_spelled {text : String} (h : Spelled .booleanLiteral text.toList) :
    ∃ b : Bool, Text.foldCase text = toString b := by
  generalize hkind : TokenKind.booleanLiteral = kind at h
  generalize htext : text.toList = cs at h
  cases h with
  | word =>
    rw [← htext, String.ofList_toList] at hkind
    have hreserved := reserved_of_wordKind hkind.symm nofun
    generalize Text.foldCase text = word at hreserved ⊢
    cases hreserved with
    | boolean b => exact ⟨b, rfl⟩
  | leftParen | rightParen | comma | string | number | symbol => cases hkind

/-! ## Where a spelled text ends -/

def separators : List Char := Text.blanks ++ ['(', ')', ',']

def Separated (r : List Char) : Prop := ∀ c ∈ r.head?, c ∈ separators

theorem separated_cons {c : Char} {r : List Char} : Separated (c :: r) ↔ c ∈ separators := by
  simp only [Separated, List.head?_cons, Option.mem_some, forall_eq']

theorem not_mem_of_class {p : Char → Bool} {c : Char} {ds : List Char} (hp : ds.any p = false)
    (hc : p c) : c ∉ ds := fun hmem => List.any_eq_false.1 hp c hmem hc

section
variable {p : Char → Bool} {cs ds r : List Char}

theorem takeWhile_of_separated (hp : separators.any p = false) (hr : Separated r) :
    r.takeWhile p = [] := by
  cases r with
  | nil => rfl
  | cons c r => exact List.takeWhile_cons_of_neg (List.any_eq_false.1 hp c (separated_cons.1 hr))

theorem takeWhile_append_separated (hp : separators.any p = false) (hcs : ∀ c ∈ cs, p c)
    (hr : Separated r) : (cs ++ r).takeWhile p = cs := by
  rw [List.takeWhile_append_of_pos hcs, takeWhile_of_separated hp hr, List.append_nil]

theorem wordExtent_append (hcs : ∀ c ∈ cs, isWordChar c) (hr : Separated r) :
    wordExtent (cs ++ r) = cs.length := by
  rw [wordExtent, takeWhile_append_separated (by decide) hcs hr]

theorem numberExtent_point (hds : ∀ c ∈ ds, c.isDigit) (fs : List Char) :
    numberExtent (ds ++ '.' :: fs) =
      if (fs.takeWhile Char.isDigit).length = 0 then ds.length
      else ds.length + 1 + (fs.takeWhile Char.isDigit).length := by
  have hwhole : (ds ++ '.' :: fs).takeWhile Char.isDigit = ds := by
    rw [List.takeWhile_append_of_pos hds, List.takeWhile_cons_of_neg (by decide), List.append_nil]
  simp only [numberExtent, hwhole, List.drop_left]

theorem numberExtent_append {fraction : List Char} (hds : ∀ c ∈ ds, c.isDigit)
    (hfraction : Fraction fraction) (hr : Separated r) :
    numberExtent (ds ++ fraction ++ r) = (ds ++ fraction).length := by
  have hdigit : separators.any Char.isDigit = false := by decide
  cases hfraction with
  | absent =>
    -- What follows the digits is a separator, and no point.
    have hpoint : '.' ∉ separators := by decide
    unfold numberExtent
    simp only [List.append_nil, takeWhile_append_separated hdigit hds hr, List.drop_left]
    cases r with
    | nil => rfl
    | cons c r =>
      split
      · next hc => exact absurd (separated_cons.1 ((List.cons.inj hc).1 ▸ hr)) hpoint
      · rfl
  | @present fs hfs =>
    rw [List.append_assoc, List.cons_append, numberExtent_point hds,
      takeWhile_append_separated hdigit hfs.2 hr, if_neg (mt List.length_eq_zero_iff.1 hfs.1),
      List.length_append, List.length_cons]
    omega

theorem quotedExtent_doubleQuotes (cs r : List Char) :
    quotedExtent (doubleQuotes cs ++ r) =
      (quotedExtent r).map (· + (doubleQuotes cs).length) := by
  induction cs with
  | nil =>
    cases h : quotedExtent r <;> simp [doubleQuotes, h]
  | cons c cs ih =>
    rw [doubleQuotes_cons]
    split
    · rw [List.append_assoc, List.cons_append, List.singleton_append, quotedExtent.eq_2, ih,
        Option.map_map]
      rfl
    · next hc =>
      rw [List.append_assoc, List.singleton_append,
        quotedExtent.eq_4 _ _ (fun _ h _ => hc h) hc, ih, Option.map_map]
      rfl

theorem quotedExtent_quote {r : List Char} (hr : r.head? ≠ some '\'') :
    quotedExtent ('\'' :: r) = some 1 := by
  refine quotedExtent.eq_3 r fun cs hcs => hr ?_
  rw [hcs, List.head?_cons]

theorem quotedExtent_append (hr : Separated r) :
    quotedExtent (doubleQuotes cs ++ ['\''] ++ r) = some (doubleQuotes cs ++ ['\'']).length := by
  have hquote : '\'' ∉ separators := by decide
  have hhead : r.head? ≠ some '\'' := fun h => hquote (hr _ h)
  rw [List.append_assoc, quotedExtent_doubleQuotes, List.singleton_append,
    quotedExtent_quote hhead, Option.map_some, List.length_append, List.length_singleton,
    Nat.add_comm]

end

theorem find?_symbol_append {s r : List Char} (hr : Separated r) :
    symbols.find? (·.isPrefixOf (s ++ r)) = symbols.find? (·.isPrefixOf s) := by
  have hsymbol : ∀ p ∈ symbols, p.any separators.contains = false := by decide
  have hstart : ∀ p ∈ symbols, p <+: s ++ r → p <+: s := by
    intro p hp hlong
    -- A symbol that is longer than the text reaches into the separator, which no symbol has.
    rcases List.prefix_or_prefix_of_prefix hlong (List.prefix_append s r) with h | ⟨t, rfl⟩
    · exact h
    cases t with
    | nil => exact ⟨[], by rw [List.append_nil, List.append_nil]⟩
    | cons c t =>
      have hrest := (List.prefix_append_right_inj s).1 hlong
      cases r with
      | nil => exact absurd hrest (by simp)
      | cons d r =>
        obtain ⟨rfl, -⟩ := List.cons_prefix_cons.1 hrest
        have hseparator := List.contains_iff_mem.2 (separated_cons.1 hr)
        exact absurd (by simp) (not_mem_of_class (hsymbol _ hp) hseparator)
  have hsame : ∀ p ∈ symbols, p.isPrefixOf (s ++ r) = p.isPrefixOf s := by
    intro p hp
    rw [Bool.eq_iff_iff, List.isPrefixOf_iff_prefix, List.isPrefixOf_iff_prefix]
    exact ⟨hstart p hp, fun h => h.trans (List.prefix_append s r)⟩
  rw [← List.head?_filter, ← List.head?_filter, List.filter_congr hsame]

theorem not_isDigit_of_isWordStart {c : Char} (h : isWordStart c) : c.isDigit = false := by
  rw [Bool.eq_false_iff]
  intro hdigit
  have hrange : c.val.toNat ≤ 57 := by
    simp only [Char.isDigit, Bool.and_eq_true, decide_eq_true_eq] at hdigit
    exact UInt32.le_iff_toNat_le.1 hdigit.2
  unfold isWordStart Char.isAlpha Char.isUpper Char.isLower at h
  simp only [Bool.or_eq_true, Bool.and_eq_true, decide_eq_true_eq] at h
  rcases h with (h | h) | rfl
  · have : 65 ≤ c.val.toNat := UInt32.le_iff_toNat_le.1 h.1
    omega
  · have : 97 ≤ c.val.toNat := UInt32.le_iff_toNat_le.1 h.1
    omega
  · cases hdigit

def marks : List Char := ['(', ')', ',', '\'']

theorem first_of_not_mem_marks {c : Char} (h : c ∉ marks) (cs : List Char) :
    first c cs =
      if c.isDigit || c = '-' && cs.head?.any Char.isDigit then
        .ok (.numberLiteral, numberExtent cs)
      else if isWordStart c then
        .ok (wordKind (.ofList (c :: cs.take (wordExtent cs))), wordExtent cs)
      else
        match symbols.find? (·.isPrefixOf (c :: cs)) with
        | some s => .ok (.comparisonOperator, s.length - 1)
        | none => .error (.unexpectedCharacter c) := by
  simp only [marks, List.mem_cons, List.not_mem_nil, or_false, not_or] at h
  obtain ⟨hopening, hclosing, hcomma, hquote⟩ := h
  exact (if_neg hopening).trans <| (if_neg hclosing).trans <| (if_neg hcomma).trans (if_neg hquote)

theorem start_of_symbol {p : Char → Bool} {c : Char} {cs : List Char}
    (hp : symbols.all fun s => s.head?.all p) (h : c :: cs ∈ symbols) : p c :=
  List.all_eq_true.1 hp _ h

/-! ## The lexeme of each form -/

theorem first_of_digits {c : Char} {cs : List Char}
    (h : c.isDigit ∨ c = '-' ∧ cs.head?.any Char.isDigit) :
    first c cs = .ok (.numberLiteral, numberExtent cs) := by
  have hmarks : c ∉ marks := by
    rcases h with hdigit | ⟨rfl, -⟩
    · exact not_mem_of_class (by decide) hdigit
    · decide
  rw [first_of_not_mem_marks hmarks, if_pos (by simpa using h)]

theorem first_of_isWordStart {c : Char} (h : isWordStart c) (cs : List Char) :
    first c cs = .ok (wordKind (.ofList (c :: cs.take (wordExtent cs))), wordExtent cs) := by
  have hminus : c ≠ '-' := fun hc => by simp [hc, isWordStart] at h
  rw [first_of_not_mem_marks (not_mem_of_class (by decide) h), if_neg, if_pos h]
  simp [not_isDigit_of_isWordStart h, hminus]

theorem first_of_symbol {c : Char} {ds : List Char} (h : c :: ds ∈ symbols) (cs : List Char) :
    first c cs =
      match symbols.find? (·.isPrefixOf (c :: cs)) with
      | some s => .ok (.comparisonOperator, s.length - 1)
      | none => .error (.unexpectedCharacter c) := by
  have hmark := start_of_symbol (p := fun d => d ∉ marks) (by decide) h
  have hdigit := start_of_symbol (p := fun d => !d.isDigit) (by decide) h
  have hminus := start_of_symbol (p := fun d => d ≠ '-') (by decide) h
  have hword := start_of_symbol (p := fun d => !isWordStart d) (by decide) h
  simp only [decide_eq_true_eq, Bool.not_eq_true'] at hmark hdigit hminus hword
  rw [first_of_not_mem_marks hmark, if_neg (by simp [hdigit, hminus]), if_neg (by simp [hword])]

theorem first_of_spelled {c : Char} {cs r : List Char} {kind : TokenKind}
    (h : Spelled kind (c :: cs)) (hr : Separated r) :
    first c (cs ++ r) = .ok (kind, cs.length) := by
  generalize htext : c :: cs = text at h
  cases h with
  | leftParen | rightParen | comma =>
    cases htext
    rfl
  | string ds =>
    obtain ⟨rfl, rfl⟩ := List.cons.inj htext
    have hextent : quotedExtent ((doubleQuotes ds).append ['\''] ++ r) = _ :=
      quotedExtent_append hr
    unfold first
    rw [if_neg (by decide), if_neg (by decide), if_neg (by decide), if_pos rfl, hextent]
    rfl
  | @number sign whole fraction hsign hwhole hfraction =>
    obtain ⟨d, ds, rfl⟩ := List.exists_cons_of_ne_nil hwhole.1
    obtain ⟨hd, hds⟩ := List.forall_mem_cons.1 hwhole.2
    rcases hsign with rfl | rfl
    · obtain ⟨rfl, rfl⟩ := List.cons.inj htext
      rw [first_of_digits (.inl hd)]
      exact congrArg (fun n => Except.ok (_, n)) (numberExtent_append hds hfraction hr)
    · obtain ⟨rfl, rfl⟩ := List.cons.inj htext
      rw [first_of_digits]
      · exact congrArg (fun n => Except.ok (_, n)) (numberExtent_append hwhole.2 hfraction hr)
      · exact .inr ⟨rfl, hd⟩
  | word hc hcs =>
    obtain ⟨rfl, rfl⟩ := List.cons.inj htext
    rw [first_of_isWordStart hc, wordExtent_append hcs hr, List.take_left]
  | symbol hop =>
    have hfound : ∀ s ∈ symbols, symbols.find? (·.isPrefixOf s) = some s := by decide
    have hs := mem_symbols_iff.2 ⟨_, hop⟩
    rw [← htext] at hs
    rw [first_of_symbol hs, ← List.cons_append, find?_symbol_append hr, hfound _ hs]
    rfl

theorem not_isBlank_of_class {p : Char → Bool} {c : Char} (hp : Text.blanks.any p = false)
    (hc : p c) : Text.isBlank c = false := by
  rw [Bool.eq_false_iff]
  exact mt List.contains_iff_mem.1 (not_mem_of_class hp hc)

theorem not_isBlank_of_spelled {c : Char} {cs : List Char} {kind : TokenKind}
    (h : Spelled kind (c :: cs)) : Text.isBlank c = false := by
  generalize htext : c :: cs = text at h
  cases h with
  | leftParen | rightParen | comma | string =>
    obtain ⟨rfl, -⟩ := List.cons.inj htext
    decide
  | @number sign whole fraction hsign hwhole hfraction =>
    obtain ⟨d, ds, rfl⟩ := List.exists_cons_of_ne_nil hwhole.1
    rcases hsign with rfl | rfl
    · obtain ⟨rfl, -⟩ := List.cons.inj htext
      exact not_isBlank_of_class (by decide) (hwhole.2 c List.mem_cons_self)
    · obtain ⟨rfl, -⟩ := List.cons.inj htext
      decide
  | word hc hcs =>
    obtain ⟨rfl, -⟩ := List.cons.inj htext
    exact not_isBlank_of_class (by decide) hc
  | symbol hop =>
    have hs := mem_symbols_iff.2 ⟨_, hop⟩
    rw [← htext] at hs
    have hstart := start_of_symbol (p := fun d => !Text.isBlank d) (by decide) hs
    rwa [Bool.not_eq_true'] at hstart

theorem exists_cons_of_spelled {text : List Char} {kind : TokenKind} (h : Spelled kind text) :
    ∃ c cs, text = c :: cs := by
  apply List.exists_cons_of_ne_nil
  cases h with
  | leftParen | rightParen | comma | string | word => exact List.cons_ne_nil _ _
  | number _ hwhole _ =>
    intro hnil
    exact hwhole.1 (List.append_eq_nil_iff.1 (List.append_eq_nil_iff.1 hnil).1).2
  | symbol hop =>
    have hnonempty : ∀ s ∈ symbols, s ≠ [] := by decide
    exact hnonempty _ (mem_symbols_iff.2 ⟨_, hop⟩)

end FilterQuery.Expression.Lexeme
