import FilterQuery.Proofs.Expression.Scanning

/-! The tokens of a text are its cut by longest match: at each place that is not blank stands the
longest text that begins there and is spelled like a token. -/

namespace FilterQuery.Expression.Lexeme

/-- The text is spelled like a token, and no longer one at the start of `text ++ rest` is. -/
structure Longest (kind : TokenKind) (text rest : List Char) : Prop where
  spelled : Spelled kind text
  length_le {kind' : TokenKind} {text' : List Char} : Spelled kind' text' →
    text' <+: text ++ rest → text'.length ≤ text.length

/-- Text behind `offset` bytes cut into blanks and tokens by longest match, and its end. -/
inductive Cut : Nat → List Char → List Token → Prop where
  | done {offset : Nat} {gap : List Char} : (∀ c ∈ gap, Text.isBlank c) →
      Cut offset gap [.atEnd (offset + Text.byteLength gap)]
  | token {offset : Nat} {gap text rest : List Char} {kind : TokenKind} {ts : List Token} :
      (∀ c ∈ gap, Text.isBlank c) → Longest kind text rest →
      Cut (offset + Text.byteLength (gap ++ text)) rest ts →
      Cut offset (gap ++ text ++ rest) (⟨kind, .ofList text, offset + Text.byteLength gap⟩ :: ts)

/-! ## No lexeme is too short -/

theorem le_quotedExtent {ds r : List Char} {n : Nat}
    (h : quotedExtent (doubleQuotes ds ++ '\'' :: r) = some n) :
    (doubleQuotes ds ++ ['\'']).length ≤ n := by
  have hpos {m : Nat} (hm : quotedExtent ('\'' :: r) = some m) : 1 ≤ m := by
    cases r with
    | nil => exact Nat.le_of_eq (Option.some.inj hm)
    | cons c r =>
      by_cases hc : c = '\''
      · subst hc
        obtain ⟨k, -, rfl⟩ := Option.map_eq_some_iff.1 ((quotedExtent.eq_2 r).symm.trans hm)
        omega
      · rw [quotedExtent_quote (by simpa using hc)] at hm
        exact Nat.le_of_eq (Option.some.inj hm)
  rw [quotedExtent_doubleQuotes] at h
  obtain ⟨m, hm, rfl⟩ := Option.map_eq_some_iff.1 h
  have := hpos hm
  rw [List.length_append, List.length_singleton]
  omega

theorem length_le_takeWhile {p : Char → Bool} {cs : List Char} (hcs : ∀ c ∈ cs, p c)
    (r : List Char) : cs.length ≤ ((cs ++ r).takeWhile p).length := by
  rw [List.takeWhile_append_of_pos hcs, List.length_append]
  exact Nat.le_add_right ..

theorem le_numberExtent {ds fraction r : List Char} (hds : ∀ c ∈ ds, c.isDigit)
    (hfraction : Fraction fraction) :
    (ds ++ fraction).length ≤ numberExtent (ds ++ fraction ++ r) := by
  cases hfraction with
  | absent =>
    have hwhole := length_le_takeWhile hds r
    rw [List.append_nil]
    unfold numberExtent
    dsimp only
    split
    · split <;> omega
    · exact hwhole
  | @present fs hfs =>
    have hpart := length_le_takeWhile hfs.2 r
    have hpos : 0 < fs.length := List.length_pos_iff.2 hfs.1
    rw [List.append_assoc, List.cons_append, numberExtent_point hds, if_neg (by omega),
      List.length_append, List.length_cons]
    omega

theorem length_le_of_find?_symbol {s found cs : List Char} (hs : s ∈ symbols) (hstart : s <+: cs)
    (hfound : symbols.find? (·.isPrefixOf cs) = some found) : s.length ≤ found.length := by
  -- No symbol is listed before a longer one that it begins.
  have horder : symbols.Pairwise fun s t => s <+: t → t.length ≤ s.length := by decide
  obtain ⟨hp, before, behind, hsplit, hnone⟩ := List.find?_eq_some_iff_append.1 hfound
  have hnot : s ∉ before := by
    intro hmem
    have := hnone s hmem
    rw [List.isPrefixOf_iff_prefix.2 hstart] at this
    cases this
  rw [hsplit] at hs horder
  rcases List.mem_append.1 hs with hmem | hmem
  · exact absurd hmem hnot
  rcases List.mem_cons.1 hmem with rfl | hmem
  · exact Nat.le_refl _
  have hlater : found <+: s → s.length ≤ found.length :=
    (List.pairwise_cons.1 (List.pairwise_append.1 horder).2.1).1 s hmem
  rcases List.prefix_or_prefix_of_prefix hstart (List.isPrefixOf_iff_prefix.1 hp) with h | h
  · exact h.length_le
  · exact hlater h

theorem first_quote (cs : List Char) : first '\'' cs =
    match quotedExtent cs with
    | some n => .ok (.stringLiteral, n)
    | none => .error .unterminatedString := rfl

/-- Where a text that is spelled like a token stands, a lexeme at least as long is found, unless the
text is a literal whose closing quote is the first of two. -/
theorem first_of_spelled_append {c : Char} {cs : List Char} {kind : TokenKind}
    (h : Spelled kind (c :: cs)) (r : List Char) :
    (∃ found n, first c (cs ++ r) = .ok (found, n) ∧ cs.length ≤ n) ∨
      ∃ ds r', c :: cs = '\'' :: doubleQuotes ds ++ ['\''] ∧ r = '\'' :: r' ∧
        first c (cs ++ r) = .error .unterminatedString := by
  generalize htext : c :: cs = text at h
  cases h with
  | leftParen | rightParen | comma =>
    obtain ⟨rfl, rfl⟩ := List.cons.inj htext
    exact .inl ⟨_, 0, rfl, Nat.le_refl 0⟩
  | string ds =>
    obtain ⟨rfl, rfl⟩ := List.cons.inj htext
    have hclosing : (doubleQuotes ds).append ['\''] ++ r = doubleQuotes ds ++ '\'' :: r :=
      (List.append_cons ..).symm
    rw [hclosing, first_quote]
    cases hextent : quotedExtent (doubleQuotes ds ++ '\'' :: r) with
    | some n => exact .inl ⟨_, n, rfl, le_quotedExtent hextent⟩
    | none =>
      rw [quotedExtent_doubleQuotes, Option.map_eq_none_iff] at hextent
      have hhead : r.head? = some '\'' := by
        apply Classical.byContradiction
        intro hhead
        rw [quotedExtent_quote hhead] at hextent
        cases hextent
      obtain ⟨r', rfl⟩ := List.head?_eq_some_iff.1 hhead
      exact .inr ⟨ds, r', rfl, rfl, rfl⟩
  | @number sign whole fraction hsign hwhole hfraction =>
    obtain ⟨d, ds, rfl⟩ := List.exists_cons_of_ne_nil hwhole.1
    obtain ⟨hd, hds⟩ := List.forall_mem_cons.1 hwhole.2
    rcases hsign with rfl | rfl
    · obtain ⟨rfl, rfl⟩ := List.cons.inj htext
      exact .inl ⟨_, _, first_of_digits (.inl hd), le_numberExtent hds hfraction⟩
    · obtain ⟨rfl, rfl⟩ := List.cons.inj htext
      exact .inl ⟨_, _, first_of_digits (.inr ⟨rfl, hd⟩), le_numberExtent hwhole.2 hfraction⟩
  | word hc hcs =>
    obtain ⟨rfl, rfl⟩ := List.cons.inj htext
    exact .inl ⟨_, _, first_of_isWordStart hc _, length_le_takeWhile hcs r⟩
  | symbol hop =>
    have hs := mem_symbols_iff.2 ⟨_, hop⟩
    rw [← htext] at hs
    have hstart : c :: cs <+: c :: (cs ++ r) := List.prefix_append (c :: cs) r
    rw [first_of_symbol hs]
    cases hfound : symbols.find? (·.isPrefixOf (c :: (cs ++ r))) with
    | none =>
      exact absurd (List.isPrefixOf_iff_prefix.2 hstart) (List.find?_eq_none.1 hfound _ hs)
    | some found =>
      have hle := length_le_of_find?_symbol hs hstart hfound
      rw [List.length_cons] at hle
      exact .inl ⟨_, _, rfl, Nat.le_sub_one_of_lt hle⟩

theorem length_le_of_first {c : Char} {cs r : List Char} {kind kind' : TokenKind} {n : Nat}
    (h : first c (cs ++ r) = .ok (kind, n)) (hspelled : Spelled kind' (c :: cs)) :
    cs.length ≤ n := by
  rcases first_of_spelled_append hspelled r with ⟨found, m, hm, hle⟩ | ⟨_, _, _, _, herror⟩
  · cases h.symm.trans hm
    exact hle
  · cases h.symm.trans herror

theorem longest_of_first {c : Char} {cs : List Char} {kind : TokenKind} {n : Nat}
    (h : first c cs = .ok (kind, n)) : Longest kind (c :: cs.take n) (cs.drop n) := by
  refine ⟨spelled_of_first h, fun {kind' text'} hspelled hstart => ?_⟩
  obtain ⟨d, ds, rfl⟩ := exists_cons_of_spelled hspelled
  rw [List.cons_append, List.take_append_drop] at hstart
  obtain ⟨rfl, r, rfl⟩ := List.cons_prefix_cons.1 hstart
  have hn := first_le h
  rw [List.length_cons, List.length_cons, List.length_take, Nat.min_eq_left hn]
  exact Nat.succ_le_succ (length_le_of_first h hspelled)

theorem kind_unique {kind kind' : TokenKind} {text : List Char} (h : Spelled kind text)
    (h' : Spelled kind' text) : kind = kind' := by
  obtain ⟨c, cs, rfl⟩ := exists_cons_of_spelled h
  have hfirst := (first_of_spelled (r := []) h nofun).symm.trans (first_of_spelled h' nofun)
  cases hfirst
  rfl

/-! ## Literals that are not closed

Of a literal without a closing quote, a shorter one may be spelled: in `'a''b` it is `'a'`. What is
left behind the longest such text cannot be cut. -/

theorem doubleQuotes_of_not_mem {cs : List Char} (h : '\'' ∉ cs) : doubleQuotes cs = cs := by
  induction cs with
  | nil => rfl
  | cons c cs ih =>
    rw [List.mem_cons, not_or] at h
    rw [doubleQuotes_cons, if_neg (Ne.symm h.1), ih h.2, List.singleton_append]

theorem not_mem_of_longest {kind : TokenKind} {ds r : List Char}
    (h : Longest kind ('\'' :: doubleQuotes ds ++ ['\'']) ('\'' :: r)) : '\'' ∉ r := by
  intro hmem
  obtain ⟨pre, post, rfl, hpre⟩ := List.eq_append_cons_of_mem hmem
  have hbody : doubleQuotes (ds ++ '\'' :: pre) = doubleQuotes ds ++ '\'' :: '\'' :: pre := by
    rw [doubleQuotes, List.flatMap_append, ← doubleQuotes, ← doubleQuotes, doubleQuotes_cons,
      if_pos rfl, doubleQuotes_of_not_mem hpre]
    rfl
  have hlonger := h.length_le (.string (ds ++ '\'' :: pre)) ⟨post, by rw [hbody]; simp⟩
  rw [hbody] at hlonger
  simp at hlonger

theorem quote_mem_of_spelled {cs : List Char} {kind : TokenKind}
    (h : Spelled kind ('\'' :: cs)) : '\'' ∈ cs := by
  have hfirst := first_of_spelled (r := []) h nofun
  rw [List.append_nil, first_quote] at hfirst
  split at hfirst
  · next n hn =>
    obtain ⟨ds, hds⟩ := take_of_quotedExtent hn
    have hclosing : '\'' ∈ cs.take n := hds ▸ List.mem_append_right _ List.mem_cons_self
    exact List.mem_of_mem_take hclosing
  · cases hfirst

theorem not_cut_of_unclosed {offset : Nat} {r : List Char} {ts : List Token} (h : '\'' ∉ r) :
    ¬Cut offset ('\'' :: r) ts := by
  intro hcut
  generalize htext : '\'' :: r = text at hcut
  have hquote : ¬Text.isBlank '\'' := by decide
  cases hcut with
  | done hgap =>
    exact hquote (hgap _ (htext ▸ List.mem_cons_self))
  | @token _ gap text rest kind ts hgap hlongest _ =>
    cases gap with
    | cons c gap =>
      obtain ⟨rfl, -⟩ := List.cons.inj htext
      exact hquote (hgap _ List.mem_cons_self)
    | nil =>
      obtain ⟨c, cs, rfl⟩ := exists_cons_of_spelled hlongest.spelled
      obtain ⟨rfl, rfl⟩ := List.cons.inj htext
      exact h (List.mem_append_left _ (quote_mem_of_spelled hlongest.spelled))

/-! ## Tokens and cuts -/

theorem Cut.blank {offset : Nat} {c : Char} {cs : List Char} {ts : List Token}
    (hc : Text.isBlank c) (h : Cut (offset + c.utf8Size) cs ts) : Cut offset (c :: cs) ts := by
  cases h with
  | done hgap =>
    rw [Nat.add_assoc, ← Text.byteLength_cons]
    exact .done (List.forall_mem_cons.2 ⟨hc, hgap⟩)
  | @token _ gap text rest kind ts hgap hlongest hrest =>
    rw [Nat.add_assoc, ← Text.byteLength_cons] at hrest ⊢
    exact .token (List.forall_mem_cons.2 ⟨hc, hgap⟩) hlongest hrest

theorem scan_blanks {gap : List Char} (hgap : ∀ c ∈ gap, Text.isBlank c) (offset : Nat)
    (cs : List Char) : scan offset 0 (gap ++ cs) = scan (offset + Text.byteLength gap) 0 cs := by
  induction gap generalizing offset with
  | nil => rfl
  | cons c gap ih =>
    obtain ⟨hc, hgap⟩ := List.forall_mem_cons.1 hgap
    rw [List.cons_append, scan_blank hc, ih hgap, Text.byteLength_cons, Nat.add_assoc]

theorem cut_of_scan {offset skip : Nat} {cs : List Char} {ts : List Token}
    (h : scan offset skip cs = .ok ts) :
    Cut (offset + Text.byteLength (cs.take skip)) (cs.drop skip) ts := by
  induction cs generalizing offset skip ts with
  | nil =>
    rw [List.take_nil, List.drop_nil]
    cases skip <;> cases h <;> exact .done nofun
  | cons c cs ih =>
    cases skip with
    | succ skip =>
      rw [scan] at h
      rw [List.take_succ_cons, List.drop_succ_cons, Text.byteLength_cons, ← Nat.add_assoc]
      exact ih h
    | zero =>
      rw [scan] at h
      split at h
      · next hc => exact (ih h).blank hc
      split at h
      · cases h
      · next kind n hfirst =>
        obtain ⟨rest, hrest, hall⟩ := Fallible.bind_eq_ok_iff.1 h
        cases hall
        have hbehind := ih hrest
        rw [Nat.add_assoc, ← Text.byteLength_cons] at hbehind
        have hcut := Cut.token (List.forall_mem_nil _) (longest_of_first hfirst) hbehind
        rwa [List.nil_append, List.cons_append, List.take_append_drop] at hcut

theorem Longest.eq_of_first {c : Char} {cs rest : List Char} {kind kind' : TokenKind} {n : Nat}
    (h : Longest kind (c :: cs) rest) (hfirst : first c (cs ++ rest) = .ok (kind', n)) :
    kind' = kind ∧ n = cs.length := by
  have hn : n = cs.length := by
    have hle := first_le hfirst
    have hlower := length_le_of_first hfirst h.spelled
    have hupper := h.length_le (spelled_of_first hfirst)
      (List.cons_prefix_cons.2 ⟨rfl, List.take_prefix n _⟩)
    rw [List.length_cons, List.length_cons, List.length_take, Nat.min_eq_left hle] at hupper
    omega
  subst hn
  have hspelled := spelled_of_first hfirst
  rw [List.take_left] at hspelled
  exact ⟨kind_unique hspelled h.spelled, rfl⟩

theorem first_of_longest {c : Char} {cs rest : List Char} {kind : TokenKind} {offset : Nat}
    {ts : List Token} (h : Longest kind (c :: cs) rest) (hrest : Cut offset rest ts) :
    first c (cs ++ rest) = .ok (kind, cs.length) := by
  cases hfirst : first c (cs ++ rest) with
  | error e =>
    rcases first_of_spelled_append h.spelled rest with ⟨_, _, hok, _⟩ | ⟨ds, r, htext, rfl, _⟩
    · cases hfirst.symm.trans hok
    · -- What is behind the quote is not cut.
      rw [htext] at h
      exact absurd hrest (not_cut_of_unclosed (not_mem_of_longest h))
  | ok found =>
    obtain ⟨kind', n⟩ := found
    obtain ⟨rfl, rfl⟩ := h.eq_of_first hfirst
    rfl

theorem scan_of_cut {offset : Nat} {cs : List Char} {ts : List Token} (h : Cut offset cs ts) :
    scan offset 0 cs = .ok ts := by
  induction h with
  | @done offset gap hgap =>
    have hscan := scan_blanks hgap offset []
    rwa [List.append_nil] at hscan
  | @token offset gap text rest kind ts hgap hlongest hrest ih =>
    obtain ⟨c, cs, rfl⟩ := exists_cons_of_spelled hlongest.spelled
    have hblank := not_isBlank_of_spelled hlongest.spelled
    have hfirst := first_of_longest hlongest hrest
    rw [List.append_assoc, scan_blanks hgap, scan_of_first hblank hfirst, Nat.add_assoc,
      ← Text.byteLength_append, ih]
    rfl

theorem tokenize_eq_ok_iff {input : String} {ts : List Token} :
    tokenize input = .ok ts ↔ Cut 0 input.toList ts := ⟨cut_of_scan, scan_of_cut⟩

end FilterQuery.Expression.Lexeme
