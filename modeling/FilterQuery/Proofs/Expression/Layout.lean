import Mathlib
import FilterQuery.Proofs.Expression.Bytes
import FilterQuery.Proofs.Expression.LongestMatch

/-! Where the tokens of a text stand in it: each at its own place between characters, one behind the
other, with blanks between them. -/

namespace FilterQuery.Expression.Lexeme

open Text (slice? byteLength)

/-- The tokens tile `s` from `place` on: blanks, a token with the text that stands there, and the
same again behind it up to the end. -/
inductive Tiles (s : String) : Nat → List Token → Prop where
  | done : Tiles s s.utf8ByteSize []
  | token {place : Nat} {gap : String} {t : Token} {ts : List Token} :
      slice? s place t.offset = some gap → (∀ c ∈ gap.toList, Text.isBlank c) →
      slice? s t.offset t.stop = some t.text → Tiles s t.stop ts → Tiles s place (t :: ts)

section
variable {s : String} {place : Nat} {ts : List Token}

theorem tiles_of_cut {rest : List Char} (h : Cut place rest ts) :
    ∀ pre : List Char, byteLength pre = place → s.toList = pre ++ rest → Tiles s place ts := by
  -- The text in front of the cut grows with each token.
  induction h with
  | @done place gap hgap =>
    rintro pre rfl hs
    have hsize : byteLength pre + byteLength gap = s.utf8ByteSize := by
      rw [← Text.byteLength_toList, hs, Text.byteLength_append]
    have hslice := Text.slice?_of_split (hs.trans (congrArg (pre ++ ·) (List.append_nil gap).symm))
    have hempty : s.toList = s.toList ++ ([] ++ []) := (List.append_nil s.toList).symm
    have hend := Text.slice?_of_split hempty
    rw [hsize] at hslice ⊢
    rw [Text.byteLength_toList] at hend
    exact .token hslice (by rwa [String.toList_ofList]) hend .done
  | @token place gap text rest kind ts hgap hlongest hrest ih =>
    rintro pre rfl hs
    rw [List.append_assoc] at hs
    have hbehind : s.toList = (pre ++ gap) ++ (text ++ rest) := by rw [hs, List.append_assoc]
    let t : Token := ⟨kind, .ofList text, byteLength pre + byteLength gap⟩
    have hstop : t.stop = byteLength pre + byteLength (gap ++ text) := by
      rw [Token.stop, Text.utf8ByteSize_ofList, Text.byteLength_append, Nat.add_assoc]
    have htext : slice? s t.offset t.stop = some t.text := by
      have hslice := Text.slice?_of_split hbehind
      rwa [Text.byteLength_append, Nat.add_assoc, ← Text.byteLength_append gap, ← hstop] at hslice
    have hbeyond := ih (pre ++ (gap ++ text)) (Text.byteLength_append ..) (by rw [hs]; simp)
    exact .token (Text.slice?_of_split hs) (by rwa [String.toList_ofList]) htext (hstop ▸ hbeyond)

theorem Tiles.le (h : Tiles s place ts) : ∀ t ∈ ts, place ≤ t.offset := by
  induction h with
  | done => exact nofun
  | @token place gap t ts hgap _ htext _ ih =>
    have hle := Nat.le_trans (Text.le_of_slice? hgap) (Text.le_of_slice? htext)
    exact List.forall_mem_cons.2 ⟨Text.le_of_slice? hgap, fun u hu => Nat.le_trans hle (ih u hu)⟩

theorem Tiles.pairwise (h : Tiles s place ts) : ts.Pairwise (·.stop ≤ ·.offset) := by
  induction h with
  | done => exact .nil
  | token _ _ _ hrest ih => exact .cons hrest.le ih

theorem Tiles.isValid (h : Tiles s place ts) : ∀ t ∈ ts,
    String.Pos.Raw.IsValid s ⟨t.offset⟩ ∧ String.Pos.Raw.IsValid s ⟨t.stop⟩ := by
  induction h with
  | done => exact nofun
  | token _ _ htext _ ih => exact List.forall_mem_cons.2 ⟨Text.isValid_of_slice? htext, ih⟩

end

/-! ## Kinds of words -/

/-- A reserved word has its own kind, in capitals or not, and any other is an identifier. -/
def Classed (word : String) (kind : TokenKind) : Prop :=
  Reserved (Text.foldCase word) kind ∨
    kind = .identifier ∧ ∀ other, ¬Reserved (Text.foldCase word) other

theorem classed_wordKind (word : String) : Classed word (wordKind word) := by
  cases hlookup : reserved.lookup (Text.foldCase word) with
  | some kind =>
    have hkind : wordKind word = kind := by rw [wordKind, hlookup, Option.getD_some]
    rw [hkind]
    exact .inl (mem_reserved_iff.1 (Fallible.mem_of_lookup_eq_some hlookup))
  | none =>
    have hkind : wordKind word = .identifier := by rw [wordKind, hlookup, Option.getD_none]
    refine .inr ⟨hkind, fun other hother => ?_⟩
    have hno := List.lookup_eq_none_iff.1 hlookup _ (mem_reserved_iff.2 hother)
    simp at hno

theorem wordKind_of_spelled {c : Char} {cs : List Char} {kind : TokenKind} (hc : isWordStart c)
    (h : Spelled kind (c :: cs)) : kind = wordKind (.ofList (c :: cs)) := by
  have hfirst := (first_of_spelled (r := []) h nofun).symm.trans (first_of_isWordStart hc _)
  rw [List.append_nil] at hfirst
  obtain ⟨hkind, hextent⟩ : kind = wordKind (.ofList (c :: cs.take (wordExtent cs))) ∧
    cs.length = wordExtent cs := by simpa using hfirst
  rw [hkind, ← hextent, List.take_length]

theorem classed_of_spelled {t : Token} (h : Spelled t.kind t.text.toList)
    (hword : t.text.toList.head?.any isWordStart) : Classed t.text t.kind := by
  obtain ⟨c, cs, htext⟩ := exists_cons_of_spelled h
  rw [htext, List.head?_cons, Option.any_some] at hword
  rw [htext] at h
  have hkind := wordKind_of_spelled hword h
  rw [← htext, String.ofList_toList] at hkind
  exact hkind ▸ classed_wordKind t.text

/-- The tokens are the cut of the text by longest match, each stands at its place in the text, and
the scan over bytes finds them without a cut inside a character, or has the same error. -/
theorem tokens_by_longest_match (input : String) :
    (∀ ts, tokenize input = .ok ts ↔ Cut 0 input.toList ts) ∧
      (∀ ts, tokenize input = .ok ts →
        Tiles input 0 ts ∧ ts.Pairwise (·.stop ≤ ·.offset) ∧
          (∀ t ∈ ts, String.Pos.Raw.IsValid input ⟨t.offset⟩ ∧
            String.Pos.Raw.IsValid input ⟨t.stop⟩) ∧
          ∃ us, ts = us ++ [.atEnd input.utf8ByteSize] ∧ ∀ t ∈ us, Spelled t.kind t.text.toList ∧
            (t.text.toList.head?.any isWordStart → Classed t.text t.kind)) ∧
      ByteScanner.scan input 0 = some (tokenize input) := by
  refine ⟨fun ts => tokenize_eq_ok_iff, fun ts h => ?_, ByteScanner.scan_eq_tokenize input⟩
  have htiles : Tiles input 0 ts := tiles_of_cut (tokenize_eq_ok_iff.1 h) [] rfl rfl
  obtain ⟨us, hus, hspelled⟩ := spelled_of_tokenize h
  refine ⟨htiles, htiles.pairwise, htiles.isValid, us, hus, fun t ht => ?_⟩
  exact ⟨hspelled t ht, classed_of_spelled (hspelled t ht)⟩

/-- Tokens that adjoin, a quote in a literal, and a blank and a letter that are not ASCII. -/
theorem tokens_by_longest_match_unspaced :
    let input := "ort='é''' OR\u00a0x>=-1.5-2"
    let word : Token := ⟨.or, "OR", 11⟩
    let ts : List Token := [⟨.identifier, "ort", 0⟩, ⟨.comparisonOperator, "=", 3⟩,
      ⟨.stringLiteral, "'é'''", 4⟩, word, ⟨.identifier, "x", 15⟩,
      ⟨.comparisonOperator, ">=", 16⟩, ⟨.numberLiteral, "-1.5", 18⟩, ⟨.numberLiteral, "-2", 22⟩,
      .atEnd 24]
    tokenize input = .ok ts ∧ Cut 0 input.toList ts ∧ Tiles input 0 ts ∧
      String.Pos.Raw.IsValid input ⟨word.offset⟩ ∧ Classed word.text word.kind ∧
      ByteScanner.scan input 0 = some (.ok ts) := by
  intro input word ts
  have htokens : tokenize input = .ok ts := by cbv
  obtain ⟨hcut, hplaces, hbytes⟩ := tokens_by_longest_match input
  obtain ⟨htiles, -, hvalid, us, hus, hspelled⟩ := hplaces ts htokens
  have hword : word ∈ ts := by simp [ts]
  have hmem : word ∈ us := by
    rw [hus] at hword
    rcases List.mem_append.1 hword with hmem | hend
    · exact hmem
    · cases congrArg Token.kind (List.mem_singleton.1 hend)
  have hclassed : Classed word.text word.kind := (hspelled word hmem).2 (by decide)
  exact ⟨htokens, (hcut ts).1 htokens, htiles, (hvalid word hword).1, hclassed, htokens ▸ hbytes⟩

end FilterQuery.Expression.Lexeme
