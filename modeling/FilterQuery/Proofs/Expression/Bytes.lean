import FilterQuery.Expression.ByteScanner
import FilterQuery.Proofs.Expression.Spelling

/-! The scan over bytes has the tokens of the scan over characters. It never cuts a text inside a
character, since what it looks for is ASCII and no byte of another character is. -/

namespace FilterQuery.Expression.ByteScanner

open Text (byteAt? slice? byteLength)

def Narrow (p : Char → Bool) : Prop := ∀ c, 128 ≤ c.toNat → p c = false

theorem narrow_eq {x : Char} (hx : x.toNat < 128) : Narrow (· = x) := by
  intro c hc
  rw [decide_eq_false_iff_not]
  rintro rfl
  omega

theorem narrow_isDigit : Narrow Char.isDigit := by
  intro c hc
  rw [Bool.eq_false_iff]
  intro hdigit
  simp only [Char.isDigit, Bool.and_eq_true, decide_eq_true_eq] at hdigit
  have : c.toNat ≤ 57 := UInt32.le_iff_toNat_le.1 hdigit.2
  omega

theorem narrow_isAlpha : Narrow Char.isAlpha := by
  intro c hc
  rw [Bool.eq_false_iff]
  intro halpha
  unfold Char.isAlpha Char.isUpper Char.isLower at halpha
  simp only [Bool.or_eq_true, Bool.and_eq_true, decide_eq_true_eq] at halpha
  rcases halpha with h | h
  · have : c.toNat ≤ 90 := UInt32.le_iff_toNat_le.1 h.2
    omega
  · have : c.toNat ≤ 122 := UInt32.le_iff_toNat_le.1 h.2
    omega

theorem narrow_isWordStart : Narrow Lexeme.isWordStart := by
  intro c hc
  rw [Lexeme.isWordStart, narrow_isAlpha c hc, Bool.false_or]
  exact narrow_eq (by decide) c hc

theorem narrow_isWordChar : Narrow Lexeme.isWordChar := by
  intro c hc
  have hunderscore : decide (c = '_') = false := narrow_eq (by decide) c hc
  have hpoint : decide (c = '.') = false := narrow_eq (by decide) c hc
  rw [Lexeme.isWordChar, Char.isAlphanum, narrow_isAlpha c hc, narrow_isDigit c hc, hunderscore,
    hpoint]
  rfl

/-- The bytes of a character are in a class just if the character is. -/
def Stands (b c : Char) : Prop := ∀ p, Narrow p → p b = p c

theorem Stands.eq_iff {b c x : Char} (h : Stands b c) (hx : x.toNat < 128) : b = x ↔ c = x := by
  have hclass := h (· = x) (narrow_eq hx)
  simpa using hclass

theorem utf8Size_of_narrow {p : Char → Bool} (hp : Narrow p) {c : Char} (hc : p c) :
    c.utf8Size = 1 := by
  have hsmall : c.toNat < 128 := by
    apply Classical.byContradiction
    intro hlarge
    rw [hp c (Nat.le_of_not_lt hlarge)] at hc
    cases hc
  exact Char.utf8Size_eq_one_iff.2 (UInt32.le_iff_toNat_le.2 (Nat.le_of_lt_succ hsmall))

section
variable {s : String} {pre rest cs : List Char} {c : Char}

theorem exists_byte (h : s.toList = pre ++ c :: cs) {k : Nat} (hk : k < c.utf8Size) :
    ∃ b, byteAt? s (byteLength pre + k) = some b ∧ Stands b c := by
  by_cases hc : c.toNat < 128
  · have hsize : c.utf8Size = 1 :=
      Char.utf8Size_eq_one_iff.2 (UInt32.le_iff_toNat_le.2 (Nat.le_of_lt_succ hc))
    obtain rfl : k = 0 := by omega
    exact ⟨c, Text.byteAt?_of_ascii h hc, fun p _ => rfl⟩
  · have hwide : 128 ≤ c.toNat := Nat.le_of_not_lt hc
    obtain ⟨b, hb, hcode⟩ := Text.code_of_byteAt? h hwide hk
    exact ⟨b, hb, fun p hp => (hp b hcode).trans (hp c hwide).symm⟩

theorem exists_first_byte (h : s.toList = pre ++ c :: cs) :
    ∃ b, byteAt? s (byteLength pre) = some b ∧ Stands b c := exists_byte h c.utf8Size_pos

theorem byteAt?_eq_some_iff (h : s.toList = pre ++ rest) {x : Char} (hx : x.toNat < 128) :
    byteAt? s (byteLength pre) = some x ↔ rest.head? = some x := by
  cases rest with
  | nil => simp [Text.byteAt?_end (h.trans (List.append_nil pre))]
  | cons c cs =>
    obtain ⟨b, hb, hstands⟩ := exists_first_byte h
    rw [hb, List.head?_cons, Option.some.injEq, Option.some.injEq]
    exact hstands.eq_iff hx

theorem any_byteAt? (h : s.toList = pre ++ rest) {p : Char → Bool} (hp : Narrow p) :
    (byteAt? s (byteLength pre)).any p = rest.head?.any p := by
  cases rest with
  | nil => simp [Text.byteAt?_end (h.trans (List.append_nil pre))]
  | cons c cs =>
    obtain ⟨b, hb, hstands⟩ := exists_first_byte h
    rw [hb]
    exact hstands p hp

theorem byteLength_append_one {p : Char → Bool} (hp : Narrow p) (hc : p c) (pre : List Char) :
    byteLength (pre ++ [c]) = byteLength pre + 1 := by
  rw [Text.byteLength_append, Text.byteLength_cons, utf8Size_of_narrow hp hc, Text.byteLength_nil]

theorem append_cons_assoc (h : s.toList = pre ++ c :: cs) : s.toList = (pre ++ [c]) ++ cs := by
  rw [h, List.append_cons]

theorem charAt?_eq (h : s.toList = pre ++ rest) :
    charAt? s (byteLength pre) = some rest.head? := by
  have hslice : slice? s (byteLength pre) (byteLength (pre ++ rest)) = some (.ofList rest) :=
    Text.slice?_of_append (h.trans (List.append_nil _).symm)
  rw [← h, Text.byteLength_toList] at hslice
  rw [charAt?, hslice, Option.map_some, String.toList_ofList]

/-! ## Runs of bytes -/

theorem skipBlanks_blank (hc : Text.isBlank c) (h : s.toList = pre ++ c :: cs) :
    skipBlanks s (byteLength pre) = skipBlanks s (byteLength (pre ++ [c])) := by
  have hchar : charAt? s (byteLength pre) = some (some c) := charAt?_eq h
  rw [skipBlanks, hchar, Text.byteLength_append]
  dsimp only
  rw [if_pos hc]
  rfl

theorem skipBlanks_eq (hc : rest.head?.any Text.isBlank = false) (h : s.toList = pre ++ rest) :
    skipBlanks s (byteLength pre) = some (byteLength pre) := by
  rw [skipBlanks, charAt?_eq h]
  cases rest with
  | nil => rfl
  | cons c cs =>
    have hno : ¬Text.isBlank c := by simpa using hc
    simp only [List.head?_cons]
    rw [if_neg hno]

theorem skipWhile_of_none {p : Char → Bool} {pos : Nat} (h : byteAt? s pos = none) :
    skipWhile s p pos = pos := by rw [skipWhile, h]

theorem skipWhile_of_some {p : Char → Bool} {pos : Nat} {b : Char} (h : byteAt? s pos = some b) :
    skipWhile s p pos = if p b then skipWhile s p (pos + 1) else pos := by rw [skipWhile, h]

theorem skipWhile_eq {p : Char → Bool} (hp : Narrow p) (h : s.toList = pre ++ rest) :
    skipWhile s p (byteLength pre) = byteLength (pre ++ rest.takeWhile p) := by
  induction rest generalizing pre with
  | nil =>
    rw [skipWhile_of_none (Text.byteAt?_end (h.trans (List.append_nil pre))), List.takeWhile_nil,
      List.append_nil]
  | cons c cs ih =>
    obtain ⟨b, hb, hstands⟩ := exists_first_byte h
    rw [skipWhile_of_some hb, hstands p hp]
    split
    · next hc =>
      have hbehind := ih (append_cons_assoc h)
      rw [byteLength_append_one hp hc] at hbehind
      rw [hbehind, List.takeWhile_cons_of_pos hc, ← List.append_cons]
    · next hc => rw [List.takeWhile_cons_of_neg hc, List.append_nil]

theorem closing?_of_none {pos : Nat} (h : byteAt? s pos = none) : closing? s pos = none := by
  rw [closing?, h]

theorem closing?_of_some {pos : Nat} {b : Char} (h : byteAt? s pos = some b) :
    closing? s pos =
      if b = '\'' then
        if byteAt? s (pos + 1) = some '\'' then closing? s (pos + 2) else some (pos + 1)
      else closing? s (pos + 1) := by rw [closing?, h]

theorem closing?_append_one (hc : c ≠ '\'') (h : s.toList = pre ++ c :: cs) :
    closing? s (byteLength pre) = closing? s (byteLength (pre ++ [c])) := by
  -- The scan passes over the bytes of the character one by one, for none of them is a quote.
  have hsteps : ∀ k ≤ c.utf8Size,
      closing? s (byteLength pre) = closing? s (byteLength pre + k) := by
    intro k
    induction k with
    | zero => exact fun _ => rfl
    | succ k ih =>
      intro hk
      obtain ⟨b, hb, hstands⟩ := exists_byte h hk
      have hquote : b ≠ '\'' := mt (hstands.eq_iff (by decide)).1 hc
      rw [ih (Nat.le_of_succ_le hk), closing?_of_some hb, if_neg hquote, Nat.add_assoc]
  rw [hsteps _ (Nat.le_refl _), Text.byteLength_append, Text.byteLength_cons, Text.byteLength_nil,
    Nat.add_zero]

theorem closing?_eq (h : s.toList = pre ++ rest) :
    closing? s (byteLength pre) =
      (Lexeme.quotedExtent rest).map fun n => byteLength (pre ++ rest.take n) := by
  have hone (pre : List Char) : byteLength (pre ++ ['\'']) = byteLength pre + 1 :=
    Text.byteLength_append ..
  fun_induction Lexeme.quotedExtent rest generalizing pre with
  | case1 => exact closing?_of_none (Text.byteAt?_end (h.trans (List.append_nil pre)))
  | case2 cs ih =>
    have hsecond := append_cons_assoc h
    have hopening := (byteAt?_eq_some_iff h (x := '\'') (by decide)).2 rfl
    have hclosing := (byteAt?_eq_some_iff hsecond (x := '\'') (by decide)).2 rfl
    have hbehind := ih (append_cons_assoc hsecond)
    rw [hone, hone] at hbehind
    rw [closing?_of_some hopening, if_pos rfl, ← hone, if_pos hclosing, hbehind, Option.map_map]
    simp [Function.comp_def]
  | case3 cs hcs =>
    have hopening := (byteAt?_eq_some_iff h (x := '\'') (by decide)).2 rfl
    have hsecond : byteAt? s (byteLength (pre ++ ['\''])) ≠ some '\'' := by
      intro hquote
      have hhead := (byteAt?_eq_some_iff (append_cons_assoc h) (by decide)).1 hquote
      obtain ⟨ds, hds⟩ := List.head?_eq_some_iff.1 hhead
      exact hcs ds hds
    rw [closing?_of_some hopening, if_pos rfl, ← hone, if_neg hsecond]
    rfl
  | case4 c cs _ hc ih =>
    rw [closing?_append_one hc h, ih (append_cons_assoc h), Option.map_map]
    simp [Function.comp_def]

theorem takeWhile_eq_nil_iff {p : Char → Bool} {ds : List Char} :
    ds.takeWhile p = [] ↔ ds.head?.any p = false := by
  cases ds with
  | nil => exact ⟨fun _ => rfl, fun _ => rfl⟩
  | cons d ds =>
    rw [List.takeWhile_cons, List.head?_cons, Option.any_some]
    cases p d <;> simp

theorem numberStop_eq (h : s.toList = pre ++ rest) :
    numberStop s (byteLength pre) = byteLength (pre ++ rest.take (Lexeme.numberExtent rest)) := by
  have hwhole := skipWhile_eq narrow_isDigit h
  have htake := Lexeme.take_length_takeWhile Char.isDigit rest
  have hrest := List.take_append_drop (rest.takeWhile Char.isDigit).length rest
  rw [htake] at hrest
  have hsplit : s.toList = (pre ++ rest.takeWhile Char.isDigit) ++
      rest.drop (rest.takeWhile Char.isDigit).length := by
    rw [h, List.append_assoc, hrest]
  have hpoint := byteAt?_eq_some_iff hsplit (x := '.') (by decide)
  unfold Lexeme.numberExtent
  dsimp only
  split
  · next ds hds =>
    rw [hds] at hsplit hpoint
    have hone : byteLength (pre ++ rest.takeWhile Char.isDigit ++ ['.']) =
        byteLength (pre ++ rest.takeWhile Char.isDigit) + 1 := Text.byteLength_append ..
    have hbehind := append_cons_assoc hsplit
    simp only [numberStop, hwhole]
    rw [← hone, any_byteAt? hbehind narrow_isDigit, skipWhile_eq narrow_isDigit hbehind,
      hpoint.2 rfl, decide_eq_true rfl, Bool.true_and]
    by_cases hdigits : ds.takeWhile Char.isDigit = []
    · rw [takeWhile_eq_nil_iff.1 hdigits, hdigits, if_neg (by decide), if_pos List.length_nil,
        htake]
    · have hany : ds.head?.any Char.isDigit = true :=
        Bool.of_not_eq_false (mt takeWhile_eq_nil_iff.2 hdigits)
      rw [hany, if_pos rfl, if_neg (mt List.length_eq_zero_iff.1 hdigits), Nat.add_assoc,
        List.take_add, htake, hds, Nat.add_comm 1, List.take_succ_cons,
        Lexeme.take_length_takeWhile]
      simp
  · next hnot =>
    have hno : byteAt? s (byteLength (pre ++ rest.takeWhile Char.isDigit)) ≠ some '.' := by
      intro hbyte
      obtain ⟨ds, hds⟩ := List.head?_eq_some_iff.1 (hpoint.1 hbyte)
      exact hnot ds hds
    simp only [numberStop, hwhole]
    rw [decide_eq_false hno, Bool.false_and, if_neg (by decide), htake]

/-! ## Lexemes -/

theorem startsAt_eq {symbol : List Char} (hascii : ∀ c ∈ symbol, c.toNat < 128)
    (h : s.toList = pre ++ rest) :
    startsAt s (byteLength pre) symbol = symbol.isPrefixOf rest := by
  induction symbol generalizing pre rest with
  | nil => rfl
  | cons x symbol ih =>
    obtain ⟨hx, hascii⟩ := List.forall_mem_cons.1 hascii
    have hfirst := byteAt?_eq_some_iff h hx
    cases rest with
    | nil => simp [startsAt, hfirst]
    | cons c cs =>
      rw [startsAt, List.isPrefixOf_cons_cons]
      by_cases hc : x = c
      · subst hc
        have hone := byteLength_append_one (narrow_eq hx) (decide_eq_true rfl) pre
        rw [hfirst.2 rfl, ← hone, ih hascii (append_cons_assoc h), decide_eq_true rfl,
          beq_self_eq_true]
      · have hno : byteAt? s (byteLength pre) ≠ some x := fun hbyte =>
          hc (Option.some.inj (hfirst.1 hbyte)).symm
        rw [decide_eq_false hno, beq_eq_false_iff_ne.2 hc, Bool.false_and, Bool.false_and]

theorem ascii_of_mem_symbols {symbol : List Char} (h : symbol ∈ Lexeme.symbols) :
    ∀ c ∈ symbol, c.toNat < 128 := by
  have hall : Lexeme.symbols.all (·.all (·.toNat < 128)) := by decide
  have hsymbol := List.all_eq_true.1 hall symbol h
  simpa using hsymbol

theorem find?_startsAt (h : s.toList = pre ++ rest) :
    Lexeme.symbols.find? (startsAt s (byteLength pre)) =
      Lexeme.symbols.find? (·.isPrefixOf rest) := by
  rw [← List.head?_filter, ← List.head?_filter]
  exact congrArg List.head?
    (List.filter_congr fun symbol hs => startsAt_eq (ascii_of_mem_symbols hs) h)

def placed (pre : List Char) (c : Char) (cs : List Char) :
    Except LexReason (TokenKind × Nat) → Except LexError (TokenKind × Nat)
  | .ok (kind, n) => .ok (kind, byteLength (pre ++ c :: cs.take n))
  | .error reason => .error ⟨byteLength pre, reason⟩

theorem placed_ok (kind : TokenKind) (n : Nat) : placed pre c cs (.ok (kind, n)) =
    .ok (kind, byteLength (pre ++ [c] ++ cs.take n)) := by
  rw [placed, ← List.append_cons]

theorem byteLength_of_ascii {cs : List Char} (h : ∀ c ∈ cs, c.toNat < 128) :
    byteLength cs = cs.length := by
  induction cs with
  | nil => rfl
  | cons c cs ih =>
    obtain ⟨hc, hcs⟩ := List.forall_mem_cons.1 h
    rw [Text.byteLength_cons, utf8Size_of_narrow (narrow_eq hc) (decide_eq_true rfl), ih hcs,
      List.length_cons, Nat.add_comm]

theorem startsNumber_eq (h : s.toList = pre ++ c :: cs) :
    (c = '-' && (byteAt? s (byteLength pre + 1)).any Char.isDigit) =
      (c = '-' && cs.head?.any Char.isDigit) := by
  -- Only behind a sign is the next place that of a character for certain.
  by_cases hc : c = '-'
  · have hone : byteLength (pre ++ [c]) = byteLength pre + 1 :=
      byteLength_append_one (narrow_eq (x := '-') (by decide)) (decide_eq_true hc) pre
    rw [← hone, any_byteAt? (append_cons_assoc h) narrow_isDigit]
  · rw [decide_eq_false hc, Bool.false_and, Bool.false_and]

theorem lexeme_eq {b : Char} (hb : Stands b c) (h : s.toList = pre ++ c :: cs) :
    lexeme s (byteLength pre) b = some (placed pre c cs (Lexeme.first c cs)) := by
  have hletter {x : Char} (hx : x.toNat < 128) : b = x ↔ c = x := hb.eq_iff hx
  have hbehind := append_cons_assoc h
  have hone {p : Char → Bool} (hp : Narrow p) (hc : p c) :
      byteLength pre + 1 = byteLength (pre ++ [c]) := (byteLength_append_one hp hc pre).symm
  have hequal (x : Char) (hx : x.toNat < 128) (hc : c = x) :
      byteLength pre + 1 = byteLength (pre ++ [c]) := hone (narrow_eq hx) (decide_eq_true hc)
  unfold lexeme Lexeme.first
  simp only [hletter (x := '(') (by decide), hletter (x := ')') (by decide),
    hletter (x := ',') (by decide), hletter (x := '\'') (by decide),
    hletter (x := '-') (by decide), hb _ narrow_isDigit, hb _ narrow_isWordStart,
    startsNumber_eq h]
  split
  · next hc =>
    rw [hequal '(' (by decide) hc, placed_ok, List.take_zero, List.append_nil]
  split
  · next hc =>
    rw [hequal ')' (by decide) hc, placed_ok, List.take_zero, List.append_nil]
  split
  · next hc =>
    rw [hequal ',' (by decide) hc, placed_ok, List.take_zero, List.append_nil]
  split
  · next hc =>
    rw [hequal '\'' (by decide) hc, closing?_eq hbehind]
    cases Lexeme.quotedExtent cs with
    | none => rfl
    | some n =>
      rw [placed_ok]
      rfl
  split
  · next hc =>
    have hsize : byteLength pre + 1 = byteLength (pre ++ [c]) := by
      rcases Bool.or_eq_true_iff.1 hc with hdigit | hminus
      · exact hone narrow_isDigit hdigit
      · exact hequal '-' (by decide) (of_decide_eq_true (Bool.and_eq_true_iff.1 hminus).1)
    rw [hsize, numberStop_eq hbehind, placed_ok]
  split
  · next hc =>
    have htake := Lexeme.take_length_takeWhile Lexeme.isWordChar cs
    have hsplit : s.toList = pre ++ c :: cs.take (Lexeme.wordExtent cs) ++
        cs.drop (Lexeme.wordExtent cs) := by
      rw [h, List.append_assoc, List.cons_append, List.take_append_drop]
    rw [hone narrow_isWordStart hc, skipWhile_eq narrow_isWordChar hbehind, ← htake,
      ← Lexeme.wordExtent, ← List.append_cons, Text.slice?_of_append hsplit]
    rfl
  · rw [find?_startsAt h]
    cases hfound : Lexeme.symbols.find? (·.isPrefixOf (c :: cs)) with
    | none =>
      dsimp only
      rw [charAt?_eq h]
      rfl
    | some symbol =>
      have hmem := List.mem_of_find?_eq_some hfound
      have hsize := byteLength_of_ascii (ascii_of_mem_symbols hmem)
      simp only [placed]
      rw [Lexeme.take_of_symbol hfound, ← hsize, ← Text.byteLength_append]

/-! ## Tokens -/

theorem scan_of_end {pos start : Nat} (hstart : skipBlanks s pos = some start)
    (hend : byteAt? s start = none) : scan s pos = some (.ok [.atEnd s.utf8ByteSize]) := by
  rw [scan, hstart]
  dsimp only
  rw [hend]

section
variable {pos start stop : Nat} {b : Char} {kind : TokenKind}

theorem scan_of_error {e : LexError} (hstart : skipBlanks s pos = some start)
    (hb : byteAt? s start = some b) (hlexeme : lexeme s start b = some (.error e)) :
    scan s pos = some (.error e) := by
  rw [scan, hstart]
  dsimp only
  rw [hb]
  dsimp only
  rw [hlexeme]

theorem scan_of_lexeme {text : String} (hstart : skipBlanks s pos = some start)
    (hb : byteAt? s start = some b) (hlexeme : lexeme s start b = some (.ok (kind, stop)))
    (htext : slice? s start stop = some text) :
    scan s pos = (scan s stop).map (·.map (⟨kind, text, start⟩ :: ·)) := by
  conv => lhs; rw [scan]
  rw [hstart]
  dsimp only
  rw [hb]
  dsimp only
  rw [hlexeme]
  simp only [htext]

end

theorem scan_blank (hc : Text.isBlank c) (h : s.toList = pre ++ c :: cs) :
    scan s (byteLength pre) = scan s (byteLength (pre ++ [c])) := by
  rw [scan, scan, skipBlanks_blank hc h]

theorem scan_eq (skip : Nat) (h : s.toList = pre ++ rest) :
    scan s (byteLength (pre ++ rest.take skip)) =
      some (Lexeme.scan (byteLength pre) skip rest) := by
  induction rest generalizing pre skip with
  | nil =>
    have hend := Text.byteAt?_end (h.trans (List.append_nil pre))
    have hsize : s.utf8ByteSize = byteLength pre := by
      rw [← Text.byteLength_toList, h, List.append_nil]
    have hstart := skipBlanks_eq (by rfl) h
    rw [List.take_nil, List.append_nil, scan_of_end hstart hend, hsize]
    cases skip <;> rfl
  | cons c cs ih =>
    have hbehind := append_cons_assoc h
    have hsize : byteLength (pre ++ [c]) = byteLength pre + c.utf8Size := Text.byteLength_append ..
    cases skip with
    | succ skip =>
      rw [List.take_succ_cons, List.append_cons, ih skip hbehind, Lexeme.scan, hsize]
    | zero =>
      rw [List.take_zero, List.append_nil, Lexeme.scan]
      split
      · next hc =>
        have hnext := ih 0 hbehind
        rw [List.take_zero, List.append_nil] at hnext
        rw [scan_blank hc h, hnext, hsize]
      · next hc =>
        have hstart := skipBlanks_eq (by simpa using hc) h
        obtain ⟨b, hb, hstands⟩ := exists_first_byte h
        have hlexeme := lexeme_eq hstands h
        cases hfirst : Lexeme.first c cs with
        | error reason =>
          rw [hfirst] at hlexeme
          exact scan_of_error hstart hb hlexeme
        | ok found =>
          obtain ⟨kind, n⟩ := found
          rw [hfirst] at hlexeme
          have hsplit : s.toList = pre ++ c :: cs.take n ++ cs.drop n := by
            rw [h, List.append_assoc, List.cons_append, List.take_append_drop]
          rw [scan_of_lexeme hstart hb hlexeme (Text.slice?_of_append hsplit), List.append_cons,
            ih n hbehind, hsize]
          rfl

theorem scan_eq_tokenize (input : String) : scan input 0 = some (tokenize input) :=
  scan_eq 0 (List.nil_append input.toList).symm

end

end FilterQuery.Expression.ByteScanner
