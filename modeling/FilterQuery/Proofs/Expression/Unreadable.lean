import Mathlib
import FilterQuery.Proofs.Expression.Bytes
import FilterQuery.Proofs.Expression.LongestMatch

/-! Texts without tokens. Such a text is cut into blanks and tokens up to a first place where what
is left starts neither with a blank nor with a token, or with a literal that is not closed, and this
is the place that the error names. -/

namespace FilterQuery.Expression.Lexeme

open Text (slice? byteLength)

def Unclosed (rest : List Char) : Prop := ∃ ds, rest = '\'' :: doubleQuotes ds

def Foreign (c : Char) (rest : List Char) : Prop :=
  rest.head? = some c ∧ Text.isBlank c = false ∧ ∀ kind text, Spelled kind text → ¬text <+: rest

/-- Why the text cannot be read at its start. Of a literal that is not closed it is not said that
its quote is foreign. -/
inductive Unreadable : LexReason → List Char → Prop where
  | unclosed {rest : List Char} : Unclosed rest → Unreadable .unterminatedString rest
  | foreign {c : Char} {rest : List Char} : Foreign c rest → ¬Unclosed rest →
      Unreadable (.unexpectedCharacter c) rest

inductive CutUpTo : (front rest : List Char) → Prop where
  | start (rest : List Char) : CutUpTo [] rest
  | blank {c : Char} {front rest : List Char} : Text.isBlank c → CutUpTo front rest →
      CutUpTo (c :: front) rest
  | token {kind : TokenKind} {text front rest : List Char} : Longest kind text (front ++ rest) →
      CutUpTo front rest → CutUpTo (text ++ front) rest

/-- That the cut of a text comes to `rest`, which cannot be read at its start for this reason. -/
structure Halts (text front rest : List Char) (reason : LexReason) : Prop where
  text_eq : text = front ++ rest
  cut : CutUpTo front rest
  unreadable : Unreadable reason rest

def FirstHalt (text : List Char) (offset : Nat) (reason : LexReason) : Prop :=
  ∃ front rest, Halts text front rest reason ∧ byteLength front = offset ∧
    ∀ front' rest' reason', Halts text front' rest' reason' → front.length ≤ front'.length

/-! ## One place -/

theorem exists_unreadable_iff {rest : List Char} :
    (∃ reason, Unreadable reason rest) ↔ Unclosed rest ∨ ∃ c, Foreign c rest := by
  constructor
  · rintro ⟨reason, h | ⟨h, -⟩⟩
    · exact .inl h
    · exact .inr ⟨_, h⟩
  · intro h
    by_cases hclosed : Unclosed rest
    · exact ⟨_, .unclosed hclosed⟩
    · obtain ⟨c, hc⟩ := h.resolve_left hclosed
      exact ⟨_, .foreign hc hclosed⟩

theorem Unreadable.exists_cons {reason : LexReason} {rest : List Char}
    (h : Unreadable reason rest) : ∃ c cs, rest = c :: cs ∧ Text.isBlank c = false := by
  cases h with
  | unclosed h =>
    obtain ⟨ds, rfl⟩ := h
    exact ⟨_, _, rfl, by decide⟩
  | foreign h _ =>
    obtain ⟨hhead, hblank, -⟩ := h
    obtain ⟨cs, rfl⟩ := List.head?_eq_some_iff.1 hhead
    exact ⟨_, _, rfl, hblank⟩

theorem quotedExtent_eq_none_iff {cs : List Char} :
    quotedExtent cs = none ↔ ∃ ds, cs = doubleQuotes ds := by
  constructor
  · intro h
    fun_induction quotedExtent cs with
    | case1 => exact ⟨[], rfl⟩
    | case2 cs ih =>
      obtain ⟨ds, rfl⟩ := ih (Option.map_eq_none_iff.1 h)
      exact ⟨'\'' :: ds, rfl⟩
    | case3 => cases h
    | case4 c cs _ hc ih =>
      obtain ⟨ds, rfl⟩ := ih (Option.map_eq_none_iff.1 h)
      exact ⟨c :: ds, by rw [doubleQuotes_cons, if_neg hc, List.singleton_append]⟩
  · rintro ⟨ds, rfl⟩
    rw [← List.append_nil (doubleQuotes ds), quotedExtent_doubleQuotes]
    rfl

theorem cases_of_first_eq_error {c : Char} {cs : List Char} {reason : LexReason}
    (h : first c cs = .error reason) :
    c = '\'' ∧ quotedExtent cs = none ∧ reason = .unterminatedString ∨
      c ≠ '\'' ∧ reason = .unexpectedCharacter c := by
  unfold first at h
  split at h
  · cases h
  split at h
  · cases h
  split at h
  · cases h
  split at h
  · next hquote =>
    split at h
    · cases h
    · next hextent =>
      cases h
      exact .inl ⟨hquote, hextent, rfl⟩
  next hquote =>
  split at h
  · cases h
  split at h
  · cases h
  split at h
  · cases h
  · cases h
    exact .inr ⟨hquote, rfl⟩

theorem not_prefix_of_first {c : Char} {cs : List Char}
    (h : first c cs = .error (.unexpectedCharacter c)) (kind : TokenKind) (text : List Char)
    (hspelled : Spelled kind text) : ¬text <+: c :: cs := by
  intro hstart
  obtain ⟨d, ds, rfl⟩ := exists_cons_of_spelled hspelled
  obtain ⟨rfl, r, rfl⟩ := List.cons_prefix_cons.1 hstart
  rcases first_of_spelled_append hspelled r with ⟨_, _, hok, -⟩ | ⟨_, _, -, -, herror⟩
  · cases h.symm.trans hok
  · cases h.symm.trans herror

theorem unreadable_of_first {c : Char} {cs : List Char} {reason : LexReason}
    (hblank : Text.isBlank c = false) (h : first c cs = .error reason) :
    Unreadable reason (c :: cs) := by
  rcases cases_of_first_eq_error h with ⟨rfl, hextent, rfl⟩ | ⟨hquote, rfl⟩
  · obtain ⟨ds, rfl⟩ := quotedExtent_eq_none_iff.1 hextent
    exact .unclosed ⟨ds, rfl⟩
  · refine .foreign ⟨rfl, hblank, not_prefix_of_first h⟩ ?_
    rintro ⟨ds, hds⟩
    exact hquote (List.cons.inj hds).1

theorem first_of_unreadable {c : Char} {cs : List Char} {reason : LexReason}
    (h : Unreadable reason (c :: cs)) : first c cs = .error reason := by
  cases h with
  | unclosed h =>
    obtain ⟨ds, hds⟩ := h
    obtain ⟨rfl, rfl⟩ := List.cons.inj hds
    rw [first_quote, quotedExtent_eq_none_iff.2 ⟨ds, rfl⟩]
  | foreign h hopen =>
    obtain ⟨hhead, hblank, hspelled⟩ := h
    obtain rfl := Option.some.inj hhead
    cases hfirst : first c cs with
    | ok found =>
      obtain ⟨kind, n⟩ := found
      exact absurd (List.cons_prefix_cons.2 ⟨rfl, List.take_prefix n cs⟩)
        (hspelled kind _ (spelled_of_first hfirst))
    | error reason =>
      rcases cases_of_first_eq_error hfirst with ⟨rfl, hextent, rfl⟩ | ⟨-, rfl⟩
      · obtain ⟨ds, rfl⟩ := quotedExtent_eq_none_iff.1 hextent
        exact absurd ⟨ds, rfl⟩ hopen
      · rfl

/-! ## The way to it -/

theorem scan_of_unreadable {rest : List Char} {reason : LexReason} (h : Unreadable reason rest)
    (offset : Nat) : scan offset 0 rest = .error ⟨offset, reason⟩ := by
  obtain ⟨c, cs, rfl, hblank⟩ := h.exists_cons
  rw [scan, if_neg (by simp [hblank]), first_of_unreadable h]

section
variable {text front rest : List Char} {reason : LexReason}

theorem Halts.start (h : Unreadable reason rest) : Halts rest [] rest reason := ⟨rfl, .start _, h⟩

theorem Halts.blank {c : Char} (hc : Text.isBlank c) (h : Halts text front rest reason) :
    Halts (c :: text) (c :: front) rest reason :=
  ⟨congrArg (c :: ·) h.text_eq, .blank hc h.cut, h.unreadable⟩

theorem Halts.token {kind : TokenKind} {token : List Char} (hlongest : Longest kind token text)
    (h : Halts text front rest reason) : Halts (token ++ text) (token ++ front) rest reason := by
  refine ⟨?_, .token (h.text_eq ▸ hlongest) h.cut, h.unreadable⟩
  rw [List.append_assoc, ← h.text_eq]

theorem scan_eq_error_of_cut (h : CutUpTo front rest) (hrest : Unreadable reason rest)
    (hfirst : ∀ front' rest' reason', Halts (front ++ rest) front' rest' reason' →
      front.length ≤ front'.length) (offset : Nat) :
    scan offset 0 (front ++ rest) = .error ⟨offset + byteLength front, reason⟩ := by
  induction h generalizing offset with
  | start rest => exact scan_of_unreadable hrest offset
  | @blank c front rest hc _ ih =>
    have hbehind (front' rest' : List Char) (reason' : LexReason)
        (hhalt : Halts (front ++ rest) front' rest' reason') : front.length ≤ front'.length :=
      Nat.le_of_succ_le_succ (hfirst _ _ _ (hhalt.blank hc))
    rw [List.cons_append, scan_blank hc, ih hrest hbehind, Text.byteLength_cons, Nat.add_assoc]
  | @token kind text front rest hlongest hcut ih =>
    rw [List.append_assoc] at hfirst ⊢
    have hbehind (front' rest' : List Char) (reason' : LexReason)
        (hhalt : Halts (front ++ rest) front' rest' reason') : front.length ≤ front'.length := by
      have hle := hfirst _ _ _ (hhalt.token hlongest)
      rw [List.length_append, List.length_append] at hle
      exact Nat.le_of_add_le_add_left hle
    obtain ⟨c, cs, rfl⟩ := exists_cons_of_spelled hlongest.spelled
    have hblank := not_isBlank_of_spelled hlongest.spelled
    have hlexeme : first c (cs ++ (front ++ rest)) = .ok (kind, cs.length) := by
      cases hfound : first c (cs ++ (front ++ rest)) with
      | ok found =>
        obtain ⟨kind', n⟩ := found
        obtain ⟨rfl, rfl⟩ := hlongest.eq_of_first hfound
        rfl
      | error reason' =>
        have hhere := hfirst _ _ _ (.start (unreadable_of_first hblank hfound))
        exact absurd hhere (by simp)
    rw [scan_of_first hblank hlexeme, ih hrest hbehind, Text.byteLength_append, Nat.add_assoc]
    rfl

theorem exists_halts_of_scan {offset skip : Nat} {cs : List Char} {e : LexError}
    (h : scan offset skip cs = .error e) :
    ∃ front rest, Halts (cs.drop skip) front rest e.reason := by
  induction cs generalizing offset skip with
  | nil => cases skip <;> cases h
  | cons c cs ih =>
    cases skip with
    | succ skip =>
      rw [scan] at h
      exact ih h
    | zero =>
      rw [scan] at h
      split at h
      · next hc =>
        obtain ⟨front, rest, hhalt⟩ := ih h
        exact ⟨c :: front, rest, hhalt.blank hc⟩
      next hc =>
      split at h
      · next reason hfirst =>
        cases h
        have hblank : Text.isBlank c = false := by simpa using hc
        exact ⟨[], c :: cs, .start (unreadable_of_first hblank hfirst)⟩
      · next kind n hfirst =>
        rcases Fallible.bind_eq_error_iff.1 h with h | ⟨_, _, ⟨⟩⟩
        obtain ⟨front, rest, hhalt⟩ := ih h
        have hall := hhalt.token (longest_of_first hfirst)
        rw [List.cons_append, List.take_append_drop] at hall
        exact ⟨c :: cs.take n ++ front, rest, hall⟩

end

theorem exists_firstHalt {text : List Char}
    (h : ∃ front rest reason, Halts text front rest reason) :
    ∃ offset reason, FirstHalt text offset reason := by
  classical
  have hlengths : ∃ n, ∃ front rest reason, Halts text front rest reason ∧ front.length = n := by
    obtain ⟨front, rest, reason, hhalt⟩ := h
    exact ⟨_, front, rest, reason, hhalt, rfl⟩
  obtain ⟨front, rest, reason, hhalt, hlength⟩ := Nat.find_spec hlengths
  refine ⟨_, reason, front, rest, hhalt, rfl, fun front' rest' reason' hhalt' => ?_⟩
  rw [hlength]
  exact Nat.find_min' hlengths ⟨front', rest', reason', hhalt', rfl⟩

theorem tokenize_of_firstHalt {input : String} {offset : Nat} {reason : LexReason}
    (h : FirstHalt input.toList offset reason) : tokenize input = .error ⟨offset, reason⟩ := by
  obtain ⟨front, rest, hhalt, rfl, hfirst⟩ := h
  rw [hhalt.text_eq] at hfirst
  have hscan := scan_eq_error_of_cut hhalt.cut hhalt.unreadable hfirst 0
  rwa [← hhalt.text_eq, Nat.zero_add] at hscan

theorem tokenize_eq_error_iff {input : String} {offset : Nat} {reason : LexReason} :
    tokenize input = .error ⟨offset, reason⟩ ↔ FirstHalt input.toList offset reason := by
  refine ⟨fun h => ?_, tokenize_of_firstHalt⟩
  obtain ⟨front, rest, hhalt⟩ := exists_halts_of_scan h
  obtain ⟨offset', reason', hfirst⟩ := exists_firstHalt ⟨front, rest, _, hhalt⟩
  cases h.symm.trans (tokenize_of_firstHalt hfirst)
  exact hfirst

/-! ## What stands before it -/

theorem Longest.of_append {kind : TokenKind} {text front rest : List Char}
    (h : Longest kind text (front ++ rest)) : Longest kind text front :=
  ⟨h.spelled, fun hspelled hstart => h.length_le hspelled
    (hstart.trans ⟨rest, List.append_assoc ..⟩)⟩

theorem CutUpTo.exists_cut {front rest : List Char} (h : CutUpTo front rest) (offset : Nat) :
    ∃ ts, Cut offset front ts := by
  induction h generalizing offset with
  | start => exact ⟨_, .done nofun⟩
  | blank hc _ ih =>
    obtain ⟨ts, hts⟩ := ih _
    exact ⟨ts, hts.blank hc⟩
  | token hlongest _ ih =>
    obtain ⟨ts, hts⟩ := ih _
    exact ⟨_, .token (List.forall_mem_nil _) hlongest.of_append hts⟩

theorem CutUpTo.exists_tokens {front rest : List Char} (h : CutUpTo front rest) :
    ∃ ts, tokenize (.ofList front) = .ok ts := by
  obtain ⟨ts, hcut⟩ := h.exists_cut 0
  refine ⟨ts, ?_⟩
  rw [tokenize, String.toList_ofList]
  exact scan_of_cut hcut

theorem Halts.byteLength_lt {input : String} {front rest : List Char} {reason : LexReason}
    (h : Halts input.toList front rest reason) : byteLength front < input.utf8ByteSize := by
  obtain ⟨c, cs, rfl, -⟩ := h.unreadable.exists_cons
  have hc := c.utf8Size_pos
  rw [← Text.byteLength_toList, h.text_eq, Text.byteLength_append, Text.byteLength_cons]
  omega

/-- The error of a text names the first place where its cut into blanks and tokens by longest match
halts, and why it halts there. What stands before that place has tokens. -/
theorem halted_at_first_unreadable_place (input : String) :
    (∀ o reason, tokenize input = .error ⟨o, reason⟩ →
      String.Pos.Raw.IsValid input ⟨o⟩ ∧ o < input.utf8ByteSize ∧
        ByteScanner.scan input 0 = some (.error ⟨o, reason⟩) ∧
        ∃ front rest, slice? input 0 o = some front ∧
          slice? input o input.utf8ByteSize = some rest ∧ (∃ ts, tokenize front = .ok ts) ∧
          rest.toList.head?.any Text.isBlank = false ∧ Unreadable reason rest.toList) ∧
      (∀ o reason, tokenize input = .error ⟨o, reason⟩ ↔ FirstHalt input.toList o reason) ∧
      ∀ front rest, input.toList = front ++ rest → CutUpTo front rest →
        (Unclosed rest ∨ ∃ c, Foreign c rest) →
        ∃ o reason, tokenize input = .error ⟨o, reason⟩ ∧ FirstHalt input.toList o reason := by
  refine ⟨fun o reason h => ?_, fun o reason => tokenize_eq_error_iff, ?_⟩
  · obtain ⟨front, rest, hhalt, rfl, -⟩ := tokenize_eq_error_iff.1 h
    obtain ⟨hfront, hrest⟩ := Text.slices_of_append hhalt.text_eq
    obtain ⟨c, cs, rfl, hblank⟩ := hhalt.unreadable.exists_cons
    have hbytes := ByteScanner.scan_eq_tokenize input
    rw [h] at hbytes
    refine ⟨(Text.isValid_of_slice? hfront).2, hhalt.byteLength_lt, hbytes, _, _, hfront, hrest,
      hhalt.cut.exists_tokens, ?_⟩
    rw [String.toList_ofList]
    exact ⟨hblank, hhalt.unreadable⟩
  · intro front rest htext hcut hrest
    obtain ⟨reason, hreason⟩ := exists_unreadable_iff.2 hrest
    obtain ⟨o, reason', hfirst⟩ := exists_firstHalt ⟨front, rest, reason, htext, hcut, hreason⟩
    exact ⟨o, reason', tokenize_of_firstHalt hfirst, hfirst⟩

/-- Behind a blank of two bytes, a literal in which the last quote is one of a pair. It starts with
texts that are literals, and the cut would halt again behind the longest of them. -/
theorem halted_at_first_unreadable_place_paired :
    let input := "\u00a0x='a''b''"
    tokenize input = .error ⟨4, .unterminatedString⟩ ∧ String.Pos.Raw.IsValid input ⟨4⟩ ∧
      (∃ rest, slice? input 4 11 = some rest ∧ Unreadable .unterminatedString rest.toList) ∧
      ∃ o reason, tokenize input = .error ⟨o, reason⟩ ∧ FirstHalt input.toList o reason := by
  intro input
  have herror : tokenize input = .error ⟨4, .unterminatedString⟩ := by cbv
  have hsize : input.utf8ByteSize = 11 := by decide
  obtain ⟨hplace, -, hfirst⟩ := halted_at_first_unreadable_place input
  obtain ⟨hvalid, -, -, front, rest, -, hrest, -, -, hunreadable⟩ := hplace _ _ herror
  rw [hsize] at hrest
  let literal : List Char := ['\'', 'a', '\'', '\'', 'b', '\'', '\'']
  have hx : first 'x' ('=' :: literal) = .ok (.identifier, 0) := by decide
  have hequals : first '=' literal = .ok (.comparisonOperator, 0) := by decide
  have hname : Longest .identifier ['x'] ('=' :: literal) := longest_of_first hx
  have hsymbol : Longest .comparisonOperator ['='] literal := longest_of_first hequals
  have hcut : CutUpTo ['\u00a0', 'x', '='] literal :=
    .blank (by decide) (.token hname (.token hsymbol (.start literal)))
  have hunclosed : Unclosed literal := ⟨['a', '\'', 'b', '\''], rfl⟩
  exact ⟨herror, hvalid, ⟨rest, hrest, hunreadable⟩, hfirst _ _ (by decide) hcut (.inl hunclosed)⟩

end FilterQuery.Expression.Lexeme
