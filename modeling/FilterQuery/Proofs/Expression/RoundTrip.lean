import FilterQuery.Expression.Printer
import FilterQuery.Proofs.Expression.Parsing
import FilterQuery.Proofs.Expression.Reading

/-! Printed trees read back. Each part of a canonical tree is printed as text which is cut into
tokens that derive it, whatever separator follows. -/

namespace FilterQuery.Expression

open Grammar Lexeme Node

theorem separated_blank (cs : List Char) : Separated (' ' :: cs) := separated_cons.2 (by decide)

theorem separated_rightParen : Separated [')'] := separated_cons.2 (by decide)

theorem reads_joined {cs ds word : List Char} {P Q : List Token → Prop} {kind : TokenKind}
    (hcs : Reads cs P) (hword : Spelled kind word) (hds : Reads ds Q) :
    Reads (cs ++ (' ' :: word ++ [' ']) ++ ds)
      fun ts => ∃ us t vs, ts = us ++ t :: vs ∧ P us ∧ t.kind = kind ∧ Q vs := by
  have hbehind := (reads_kind hword).append (separated_blank ds) hds.blank
  have hread := hcs.append (separated_blank _) hbehind.blank
  have htext : cs ++ (' ' :: word ++ [' ']) ++ ds = cs ++ ' ' :: (word ++ ' ' :: ds) := by
    simp only [List.append_assoc, List.cons_append, List.nil_append]
  rw [htext]
  refine hread.mono ?_
  rintro _ ⟨us, _, rfl, hus, _, vs, rfl, ⟨t, rfl, ht⟩, hvs⟩
  exact ⟨us, t, vs, rfl, hus, ht, hvs⟩

theorem reads_chain {item : Node → List Token → Prop} {joined : List Node → List Token → Prop}
    {kind : TokenKind} {word : List Char} (hword : Spelled kind word)
    (hone : ∀ n ts, item n ts → joined [n] ts)
    (hcons : ∀ n ts t ns us, item n ts → t.kind = kind → joined ns us →
      joined (n :: ns) (ts ++ t :: us))
    {ns : List Node} (hne : ns ≠ []) (h : ∀ n ∈ ns, Reads n.chars (item n)) :
    Reads ((' ' :: word ++ [' ']).intercalate (texts ns)) (joined ns) := by
  -- By induction on the items, each of which is read before a blank and the word.
  induction ns with
  | nil => exact absurd rfl hne
  | cons n ns ih =>
    have hn := h n List.mem_cons_self
    cases ns with
    | nil =>
      rw [texts, texts, List.intercalate_singleton]
      exact hn.mono (hone n)
    | cons m ns =>
      have hrest := ih (List.cons_ne_nil m ns) fun n hn => h n (List.mem_cons_of_mem _ hn)
      rw [texts, texts, List.intercalate_cons_cons, ← texts]
      refine (reads_joined hn hword hrest).mono ?_
      rintro _ ⟨ts, t, us, rfl, hts, ht, hus⟩
      exact hcons n ts t _ us hts ht hus

theorem reads_and {ns : List Node} (hne : ns ≠ [])
    (h : ∀ n ∈ ns, Reads n.chars fun ts => Operand ts n) :
    Reads (logical .and ns).chars fun ts => Conjuncts ts ns := by
  have hword : Spelled .and Connective.and.spelling.toList := spelled_word rfl rfl (by decide)
  have hone (n : Node) (ts : List Token) (hn : Operand ts n) : Conjuncts ts [n] := .one hn
  have hcons (n : Node) (ts : List Token) (t : Token) (ns : List Node) (us : List Token)
      (hn : Operand ts n) (ht : t.kind = .and) (hs : Conjuncts us ns) :
      Conjuncts (ts ++ t :: us) (n :: ns) := .and hn ht hs
  rw [chars]
  · exact reads_chain hword hone hcons hne h
  · exact nofun

theorem reads_or {ns : List Node} (hne : ns ≠ [])
    (h : ∀ n ∈ ns, Reads n.chars fun ts => ∃ ms, n = .chain .and ms ∧ Conjuncts ts ms) :
    Reads (logical .or ns).chars fun ts => Disjuncts ts ns := by
  have hword : Spelled .or Connective.or.spelling.toList := spelled_word rfl rfl (by decide)
  have hone (n : Node) (ts : List Token) (hn : ∃ ms, n = .chain .and ms ∧ Conjuncts ts ms) :
      Disjuncts ts [n] := by
    obtain ⟨ms, rfl, hms⟩ := hn
    exact .one hms
  have hcons (n : Node) (ts : List Token) (t : Token) (ns : List Node) (us : List Token)
      (hn : ∃ ms, n = .chain .and ms ∧ Conjuncts ts ms) (ht : t.kind = .or)
      (hs : Disjuncts us ns) : Disjuncts (ts ++ t :: us) (n :: ns) := by
    obtain ⟨ms, rfl, hms⟩ := hn
    exact .or hms ht hs
  rw [chars]
  · exact reads_chain hword hone hcons hne h
  · exact nofun

theorem reads_comparison {p : Property} (hp : p.Named) (op : Operator) (l : Literal) :
    Reads (comparison p op l).chars fun ts => Primary ts (.comparison p op l) := by
  have hoperator := (reads_property hp).append (separated_blank _) (reads_operator op).blank
  have hread := hoperator.append (separated_blank _) (reads_literal l).blank
  rw [chars]
  refine hread.mono ?_
  rintro _ ⟨_, _, rfl, ⟨_, _, rfl, ⟨t, rfl, ht, hname⟩, o, rfl, ho⟩, v, rfl, hv⟩
  obtain ⟨name⟩ := p
  obtain rfl : t.text = name := hname
  exact .comparison ht ho hv

theorem reads_call (f : FunctionName) {p : Property} (hp : p.Named) (l : Literal) :
    Reads (call f p l).chars fun ts => Primary ts (.call f p l) := by
  have hopening (cs : List Char) : Separated ('(' :: cs) := separated_cons.2 (by decide)
  have hcomma (cs : List Char) : Separated (',' :: cs) := separated_cons.2 (by decide)
  have hliteral := (reads_literal l).blank.append separated_rightParen (reads_kind .rightParen)
  have hbehind := (reads_kind .comma).append (separated_blank _) hliteral
  have harguments := (reads_property hp).append (hcomma _) hbehind
  have hread := (reads_function f).append (hopening _) harguments.leftParen
  have htext : (call f p l).chars = f.spelling.toList ++
      '(' :: (p.name.toList ++ ([','] ++ (' ' :: l.chars ++ [')']))) := by
    have hseparator : ", ".toList = [',', ' '] := by decide
    simp only [call, chars, texts, List.intercalate_cons_cons, List.intercalate_singleton,
      hseparator, List.append_assoc, List.cons_append, List.nil_append]
  rw [htext]
  refine hread.mono ?_
  rintro _ ⟨_, _, rfl, ⟨a, rfl, ha⟩, _, _, rfl, ⟨b, rfl, hb⟩, _, _, rfl, ⟨t, rfl, ht, hname⟩,
    _, _, rfl, ⟨c, rfl, hc⟩, _, _, rfl, ⟨v, rfl, hv⟩, d, rfl, hd⟩
  obtain ⟨name⟩ := p
  obtain rfl : t.text = name := hname
  exact .call ha hb ht hc hv hd

theorem reads_group {n : Node} (h : Reads n.chars fun ts => Disjunction ts n) :
    Reads (group n).chars fun ts => Primary ts (.group n) := by
  have hread := (h.append separated_rightParen (reads_kind .rightParen)).leftParen
  rw [chars]
  refine hread.mono ?_
  rintro _ ⟨_, _, rfl, ⟨a, rfl, ha⟩, ts, _, rfl, hts, b, rfl, hb⟩
  exact .group ha hts hb

theorem reads_not {n : Node} (h : Reads n.chars fun ts => Primary ts n) :
    Reads (logical .not [n]).chars fun ts => Operand ts (.logical .not [n]) := by
  have hword : Spelled .not "not".toList := spelled_word rfl rfl (by decide)
  have hread := (reads_kind hword).append (separated_blank _) h.blank
  have htext : (logical .not [n]).chars = "not".toList ++ ' ' :: n.chars := by
    simp only [chars, texts, List.intercalate_cons_cons, List.intercalate_singleton,
      List.append_assoc, List.singleton_append]
  rw [htext]
  refine hread.mono ?_
  rintro _ ⟨_, ts, rfl, ⟨t, rfl, ht⟩, hts⟩
  exact .not ht hts

theorem reads_of_canonical {n : Node} (h : n.Canonical) : Reads n.chars (Derived n) := by
  induction h with
  | comparison hp => exact reads_comparison hp _ _
  | function hp => exact reads_call _ hp _
  | group hn ih => exact reads_group (ih.mono fun _ h => h.disjunction hn)
  | not hprimary _ ih => exact reads_not (ih.mono fun _ h => h.primary hprimary)
  | and hlength hchain _ ih =>
    have hne := List.ne_nil_of_length_pos (Nat.lt_of_succ_le (Nat.le_of_succ_le hlength))
    exact reads_and hne fun n hn => (ih n hn).mono fun _ h => h.operand (hchain n hn)
  | or hlength hor hcanonical ih =>
    have hne := List.ne_nil_of_length_pos (Nat.lt_of_succ_le (Nat.le_of_succ_le hlength))
    exact reads_or hne fun n hn =>
      (ih n hn).mono fun _ h => h.conjuncts (hcanonical n hn) (hor n hn)

/-- Parsing undoes printing: the text of a canonical tree is cut at the boundaries it was printed
with, and associates to the tree that it was printed from. -/
theorem parse_print {n : Node} (h : n.Canonical) (hdepth : n.nesting ≤ 128) :
    parse n.print = .ok n := by
  obtain ⟨ts, hderived, htokens⟩ := (reads_of_canonical h).tokenize
  exact parse_eq_ok_iff.2 ⟨ts, htokens, hderived.disjunction h, hdepth⟩

/-- A quote in a string, a sign before a number, and a group behind a `not`. -/
theorem parse_print_nested :
    let grouped : Node := .logical .or [.comparison ⟨"order"⟩ .ge (.number (.int (-7) (by decide))),
      .comparison ⟨"b"⟩ .contains .null]
    let n : Node := .logical .or [.comparison ⟨"_a.1"⟩ .notLike (.string "it's"),
      .logical .and [.logical .not [.group grouped], .call .startsWith ⟨"c"⟩ (.boolean false)]]
    n.Canonical ∧ n.nesting ≤ 128 ∧ parse n.print = .ok n := by
  intro grouped n
  have hname (name : String) (hword : isWord name.toList)
      (hreserved : Text.foldCase name ∉ reserved.map Prod.fst) : Property.Named ⟨name⟩ :=
    ⟨hword, hreserved⟩
  have hpair {l m : Node} (hl : l.Canonical) (hm : m.Canonical) : ∀ k ∈ [l, m], k.Canonical :=
    List.forall_mem_cons.2 ⟨hl, List.forall_mem_singleton.2 hm⟩
  have hgrouped : grouped.Canonical := by
    refine .or (by decide) (by decide) (hpair ?_ ?_)
    · exact .comparison (hname "order" rfl (by decide))
    · exact .comparison (hname "b" rfl (by decide))
  have hcanonical : n.Canonical := by
    refine .or (by decide) (by decide) (hpair ?_ ?_)
    · exact .comparison (hname "_a.1" rfl (by decide))
    · refine .and (by decide) (by decide) (hpair ?_ ?_)
      · exact .not rfl (.group hgrouped)
      · exact .function (hname "c" rfl (by decide))
  have hdepth : n.nesting ≤ 128 := by decide
  exact ⟨hcanonical, hdepth, parse_print hcanonical hdepth⟩

end FilterQuery.Expression
