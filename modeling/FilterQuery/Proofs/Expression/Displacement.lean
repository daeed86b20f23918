import FilterQuery.Proofs.Expression.Offence
import FilterQuery.Proofs.Expression.Respelling
import FilterQuery.Proofs.Expression.Unreadable

/-! Filters with blanks about them. Those in front displace every token and every error by as many
bytes, and those behind only the end. -/

namespace FilterQuery.Expression

open Lexeme Expression.Parser

def Token.displaced (bytes stop : Nat) (t : Token) : Token :=
  if t.kind = .endOfInput then .atEnd stop else { t with offset := bytes + t.offset }

def LexError.displaced (bytes : Nat) (e : LexError) : LexError :=
  { e with offset := bytes + e.offset }

def ParseError.displaced (bytes stop : Nat) (e : ParseError) : ParseError :=
  { e with found := e.found.displaced bytes stop }

def FilterError.displaced (bytes stop : Nat) : FilterError → FilterError
  | .lex e => .lex (e.displaced bytes)
  | .parse e => .parse (e.displaced bytes stop)

/-! ## Lexemes before blanks -/

section
variable {p : Char → Bool} {cs r : List Char}

theorem takeWhile_append_of_nil (hr : r.takeWhile p = []) (cs : List Char) :
    (cs ++ r).takeWhile p = cs.takeWhile p := by
  rw [List.takeWhile_append]
  split
  · next hlength =>
    rw [hr, List.append_nil]
    exact ((List.takeWhile_prefix p).eq_of_length hlength).symm
  · rfl

theorem separated_of_isBlank (hr : ∀ c ∈ r, Text.isBlank c) : Separated r := by
  rw [← List.append_nil r]
  exact separated_of_blanks hr fun _ => rfl

theorem quotedExtent_append_blanks (hr : ∀ c ∈ r, Text.isBlank c) (cs : List Char) :
    quotedExtent (cs ++ r) = quotedExtent cs := by
  have hquote : '\'' ∉ r := fun hmem => absurd (hr _ hmem) (by decide)
  fun_induction quotedExtent cs with
  | case1 => exact quotedExtent_eq_none_iff.2 ⟨r, (doubleQuotes_of_not_mem hquote).symm⟩
  | case2 cs ih => rw [List.cons_append, List.cons_append, quotedExtent, ih]
  | case3 cs hcs =>
    refine quotedExtent_quote fun hhead => ?_
    cases cs with
    | nil => exact hquote (List.mem_of_head? hhead)
    | cons c cs => exact hcs cs (congrArg (· :: cs) (Option.some.inj hhead))
  | case4 c cs _ hc ih =>
    rw [List.cons_append, quotedExtent.eq_4 _ _ (fun _ h _ => hc h) hc, ih]

theorem numberExtent_append_blanks (hr : ∀ c ∈ r, Text.isBlank c) (cs : List Char) :
    numberExtent (cs ++ r) = numberExtent cs := by
  have hdigits : r.takeWhile Char.isDigit = [] :=
    takeWhile_of_separated (by decide) (separated_of_isBlank hr)
  have hwhole := takeWhile_append_of_nil hdigits cs
  have hle := (List.takeWhile_sublist (p := Char.isDigit) (l := cs)).length_le
  unfold numberExtent
  simp only [hwhole, List.drop_append_of_le_length hle]
  cases hdrop : cs.drop (cs.takeWhile Char.isDigit).length with
  | nil =>
    rw [List.nil_append]
    split
    · next ds => exact absurd (hr '.' List.mem_cons_self) (by decide)
    · rfl
  | cons c ds =>
    rw [List.cons_append]
    by_cases hc : c = '.'
    · subst hc
      simp only [takeWhile_append_of_nil hdigits ds]
    · split
      · next heq => exact absurd (List.cons.inj heq).1 hc
      · split
        · next heq => exact absurd (List.cons.inj heq).1 hc
        · rfl

theorem first_append_blanks (hr : ∀ c ∈ r, Text.isBlank c) (c : Char) (cs : List Char) :
    first c (cs ++ r) = first c cs := by
  have hseparated := separated_of_isBlank hr
  have hdigits : r.takeWhile Char.isDigit = [] := takeWhile_of_separated (by decide) hseparated
  have hchars : r.takeWhile isWordChar = [] := takeWhile_of_separated (by decide) hseparated
  have hhead : (cs ++ r).head?.any Char.isDigit = cs.head?.any Char.isDigit := by
    cases cs with
    | nil => exact ByteScanner.takeWhile_eq_nil_iff.1 hdigits
    | cons d cs => rfl
  have hword : wordExtent (cs ++ r) = wordExtent cs :=
    congrArg List.length (takeWhile_append_of_nil hchars cs)
  unfold first
  dsimp only
  rw [quotedExtent_append_blanks hr, numberExtent_append_blanks hr, hhead, hword,
    List.take_append_of_le_length (wordExtent_le cs), ← List.cons_append,
    find?_symbol_append hseparated]

end

/-! ## Tokens and trees -/

theorem Token.kind_displaced (bytes stop : Nat) (t : Token) :
    (t.displaced bytes stop).kind = t.kind := by
  unfold Token.displaced
  split
  · next h => exact h.symm
  · rfl

theorem Token.displaced_of_ne (t : Token) (h : t.kind ≠ .endOfInput) (bytes stop : Nat) :
    t.displaced bytes stop = { t with offset := bytes + t.offset } := if_neg h

theorem scan_append_blanks {r : List Char} (hr : ∀ c ∈ r, Text.isBlank c) {bytes offset skip : Nat}
    {cs : List Char} {stop : Nat} (hskip : skip ≤ cs.length)
    (hstop : bytes + offset + Text.byteLength (cs ++ r) = stop) :
    scan (bytes + offset) skip (cs ++ r) =
      ((scan offset skip cs).mapError (·.displaced bytes)).map
        (·.map (·.displaced bytes stop)) := by
  induction cs generalizing offset skip with
  | nil =>
    obtain rfl := Nat.le_zero.1 hskip
    have hend := scan_blanks hr (bytes + offset) []
    rw [List.append_nil, ← List.nil_append r, hstop] at hend
    exact hend
  | cons c cs ih =>
    have hbehind : bytes + (offset + c.utf8Size) + Text.byteLength (cs ++ r) = stop := by
      rw [List.cons_append, Text.byteLength_cons] at hstop
      omega
    rw [List.cons_append]
    cases skip with
    | succ skip =>
      rw [scan, scan, Nat.add_assoc]
      exact ih (Nat.le_of_succ_le_succ hskip) hbehind
    | zero =>
      rw [scan, scan, first_append_blanks hr, Nat.add_assoc]
      split
      · exact ih (Nat.zero_le _) hbehind
      split
      · rfl
      · next kind n hfirst =>
        have hle := first_le hfirst
        have hkind := kind_ne_endOfInput_of_spelled (spelled_of_first hfirst)
        let t : Token := ⟨kind, .ofList (c :: cs.take n), offset⟩
        have ht := t.displaced_of_ne hkind bytes stop
        rw [ih hle hbehind, List.take_append_of_le_length hle]
        cases scan (offset + c.utf8Size) n cs with
        | error e => rfl
        | ok ts =>
          exact congrArg (fun u => Except.ok (u :: ts.map (·.displaced bytes stop))) ht.symm

section
variable (bytes stop stop' : Nat)

theorem finish_displaced (s : State) (t : Token) :
    State.run.finish s (t.displaced bytes stop') =
      (State.run.finish s t).mapError (·.displaced bytes stop') := by
  unfold State.run.finish
  cases s.result? <;> rfl

/-- The places of the tokens do not matter to the parser, but for that of an error. -/
theorem run_displaced (s : State) (ts : List Token) :
    s.run stop' (ts.map (·.displaced bytes stop')) =
      (s.run stop ts).mapError (·.displaced bytes stop') := by
  induction ts generalizing s with
  | nil => exact finish_displaced bytes stop' s (.atEnd stop)
  | cons t ts ih =>
    rw [List.map_cons, State.run, State.run, Token.kind_displaced]
    split
    · exact finish_displaced bytes stop' s t
    next hkind =>
    have htext : (t.displaced bytes stop').text = t.text := by rw [t.displaced_of_ne hkind]
    rw [(Alike.of_text (t.kind_displaced bytes stop') htext).read_eq]
    cases s.read t with
    | error e => rfl
    | ok s => exact ih s

theorem parseTokens_displaced (ts : List Token) :
    parseTokens ((ts ++ [Token.atEnd stop]).map (·.displaced bytes stop')) =
      (parseTokens (ts ++ [.atEnd stop])).mapError (·.displaced bytes stop') := by
  have hlast : ((ts ++ [Token.atEnd stop]).map (·.displaced bytes stop')).getLast?.elim 0
      Token.stop = stop' := by
    rw [List.map_append, List.map_singleton, List.getLast?_concat]
    rfl
  rw [parseTokens, hlast, parseTokens]
  exact run_displaced ..

end

theorem parse_of_blanks {input other : String} {gap r : List Char}
    (hother : other.toList = gap ++ (input.toList ++ r)) (hgap : ∀ c ∈ gap, Text.isBlank c)
    (hr : ∀ c ∈ r, Text.isBlank c) :
    parse other =
      (parse input).mapError (·.displaced (Text.byteLength gap) other.utf8ByteSize) := by
  let bytes := Text.byteLength gap
  let stop := other.utf8ByteSize
  have hsize : bytes + 0 + Text.byteLength (input.toList ++ r) = stop := by
    rw [Nat.add_zero, ← Text.byteLength_append, ← hother, Text.byteLength_toList]
  have htokens : tokenize other =
      ((tokenize input).mapError (·.displaced bytes)).map (·.map (·.displaced bytes stop)) := by
    rw [tokenize, hother, scan_blanks hgap, Nat.zero_add]
    exact scan_append_blanks hr (Nat.zero_le _) hsize
  unfold parse
  rw [htokens]
  cases hinput : tokenize input with
  | error e => rfl
  | ok all =>
    obtain ⟨ts, rfl, -⟩ := spelled_of_tokenize hinput
    let all := ts ++ [Token.atEnd input.utf8ByteSize]
    calc (parseTokens (all.map (·.displaced bytes stop))).mapError FilterError.parse
      _ = ((parseTokens all).mapError (·.displaced bytes stop)).mapError FilterError.parse := by
        rw [parseTokens_displaced]
      _ = ((parseTokens all).mapError FilterError.parse).mapError
          (FilterError.displaced bytes stop) := by
        rw [Fallible.mapError_mapError, Fallible.mapError_mapError]
        rfl

end FilterQuery.Expression
