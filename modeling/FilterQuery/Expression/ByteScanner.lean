import FilterQuery.Expression.Lexeme
import FilterQuery.Text.Slice

/-! The tokens of a filter by way of its bytes. A place in the filter is the offset of a byte; the
text is cut at such places, which has no result at a place inside a character. -/

namespace FilterQuery.Expression.ByteScanner

open Text (byteAt? slice?)

variable (input : String)

theorem lt_of_byteAt? {input : String} {pos : Nat} {b : Char} (h : byteAt? input pos = some b) :
    pos < input.utf8ByteSize := by
  obtain ⟨byte, hbyte, -⟩ := Option.map_eq_some_iff.1 h
  obtain ⟨hlt, -⟩ := Array.getElem?_eq_some_iff.1 hbyte
  rwa [← String.size_toByteArray]

def charAt? (pos : Nat) : Option (Option Char) :=
  (slice? input pos input.utf8ByteSize).map (·.toList.head?)

theorem lt_of_charAt? {input : String} {pos : Nat} {c : Char}
    (h : charAt? input pos = some (some c)) : pos < input.utf8ByteSize := by
  obtain ⟨rest, hrest, hhead⟩ := Option.map_eq_some_iff.1 h
  obtain ⟨pre, post, -, -, hsize⟩ := Text.slice?_eq_some_iff.1 hrest
  obtain ⟨cs, hcs⟩ := List.head?_eq_some_iff.1 hhead
  have hpos := c.utf8Size_pos
  rw [← Text.byteLength_toList rest, hcs, Text.byteLength_cons] at hsize
  omega

def skipBlanks (pos : Nat) : Option Nat :=
  match _h : charAt? input pos with
  | none => none
  | some none => some pos
  | some (some c) => if Text.isBlank c then skipBlanks (pos + c.utf8Size) else some pos
termination_by input.utf8ByteSize - pos
decreasing_by
  have := lt_of_charAt? _h
  have := c.utf8Size_pos
  omega

def skipWhile (p : Char → Bool) (pos : Nat) : Nat :=
  match h : byteAt? input pos with
  | none => pos
  | some b => if p b then skipWhile p (pos + 1) else pos
termination_by input.utf8ByteSize - pos
decreasing_by
  have := lt_of_byteAt? h
  omega

/-- The place behind the quote that closes the literal with `pos` in it. A doubled quote does not. -/
def closing? (pos : Nat) : Option Nat :=
  match h : byteAt? input pos with
  | none => none
  | some b =>
    if b = '\'' then
      if byteAt? input (pos + 1) = some '\'' then closing? (pos + 2) else some (pos + 1)
    else closing? (pos + 1)
termination_by input.utf8ByteSize - pos
decreasing_by
  all_goals
    have := lt_of_byteAt? h
    omega

def numberStop (pos : Nat) : Nat :=
  let whole := skipWhile input Char.isDigit pos
  if byteAt? input whole = some '.' && (byteAt? input (whole + 1)).any Char.isDigit then
    skipWhile input Char.isDigit (whole + 1)
  else whole

def startsAt (pos : Nat) : List Char → Bool
  | [] => true
  | c :: cs => byteAt? input pos = some c && startsAt (pos + 1) cs

/-- The kind of the lexeme that starts at `start` with the byte `b`, and the place behind it. -/
def lexeme (start : Nat) (b : Char) : Option (Except LexError (TokenKind × Nat)) :=
  if b = '(' then some (.ok (.leftParen, start + 1))
  else if b = ')' then some (.ok (.rightParen, start + 1))
  else if b = ',' then some (.ok (.comma, start + 1))
  else if b = '\'' then
    match closing? input (start + 1) with
    | some stop => some (.ok (.stringLiteral, stop))
    | none => some (.error ⟨start, .unterminatedString⟩)
  else if b.isDigit || b = '-' && (byteAt? input (start + 1)).any Char.isDigit then
    some (.ok (.numberLiteral, numberStop input (start + 1)))
  else if Lexeme.isWordStart b then
    let stop := skipWhile input Lexeme.isWordChar (start + 1)
    (slice? input start stop).map fun word => .ok (Lexeme.wordKind word, stop)
  else
    match Lexeme.symbols.find? (startsAt input start) with
    | some symbol => some (.ok (.comparisonOperator, start + symbol.length))
    | none => (charAt? input start).map fun c? =>
        .error ⟨start, .unexpectedCharacter (c?.getD '\x00')⟩

theorem le_skipBlanks {input : String} {pos start : Nat} (h : skipBlanks input pos = some start) :
    pos ≤ start := by
  fun_induction skipBlanks input pos with
  | case1 => cases h
  | case2 => cases h; exact Nat.le_refl _
  | case3 pos c _ _ ih => exact Nat.le_of_add_right_le (ih h)
  | case4 => cases h; exact Nat.le_refl _

theorem le_skipWhile (p : Char → Bool) (pos : Nat) : pos ≤ skipWhile input p pos := by
  fun_induction skipWhile input p pos with
  | case1 => exact Nat.le_refl _
  | case2 pos b _ _ ih => omega
  | case3 => exact Nat.le_refl _

theorem le_closing? {input : String} {pos stop : Nat} (h : closing? input pos = some stop) :
    pos ≤ stop := by
  fun_induction closing? input pos with
  | case1 => cases h
  | case2 pos _ _ ih =>
    have := ih h
    omega
  | case3 => cases h; exact Nat.le_succ _
  | case4 pos _ _ _ ih =>
    have := ih h
    omega

theorem le_numberStop (pos : Nat) : pos ≤ numberStop input pos := by
  have hwhole := le_skipWhile input Char.isDigit pos
  have hfraction := le_skipWhile input Char.isDigit (skipWhile input Char.isDigit pos + 1)
  unfold numberStop
  simp only
  split <;> omega

theorem lt_of_lexeme {input : String} {start stop : Nat} {b : Char} {kind : TokenKind}
    (h : lexeme input start b = some (.ok (kind, stop))) : start < stop := by
  unfold lexeme at h
  split at h
  · cases h
    exact Nat.lt_succ_self start
  split at h
  · cases h
    exact Nat.lt_succ_self start
  split at h
  · cases h
    exact Nat.lt_succ_self start
  split at h
  · split at h
    · next hclosing =>
      cases h
      exact le_closing? hclosing
    · cases h
  split at h
  · cases h
    exact le_numberStop input (start + 1)
  split at h
  · obtain ⟨word, -, hword⟩ := Option.map_eq_some_iff.1 h
    cases hword
    exact le_skipWhile input Lexeme.isWordChar (start + 1)
  · split at h
    · next symbol hfound =>
      cases h
      have hnonempty : ∀ s ∈ Lexeme.symbols, 0 < s.length := by decide
      exact Nat.lt_add_of_pos_right (hnonempty symbol (List.mem_of_find?_eq_some hfound))
    · obtain ⟨c, -, hc⟩ := Option.map_eq_some_iff.1 h
      cases hc

def scan (pos : Nat) : Option (Except LexError (List Token)) :=
  match _hstart : skipBlanks input pos with
  | none => none
  | some start =>
    match _hb : byteAt? input start with
    | none => some (.ok [.atEnd input.utf8ByteSize])
    | some b =>
      match _hstop : lexeme input start b with
      | none => none
      | some (.error e) => some (.error e)
      | some (.ok (kind, stop)) =>
        match slice? input start stop with
        | none => none
        | some text => (scan stop).map (·.map (⟨kind, text, start⟩ :: ·))
termination_by input.utf8ByteSize - pos
decreasing_by
  have := le_skipBlanks _hstart
  have := lt_of_byteAt? _hb
  have := lt_of_lexeme _hstop
  omega

end FilterQuery.Expression.ByteScanner
