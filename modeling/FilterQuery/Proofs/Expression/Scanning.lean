import FilterQuery.Proofs.Expression.Spelling

/-! The tokens of a text. A spelled text gives its token where it stands, and there are no tokens
but such ones. -/

namespace FilterQuery.Expression.Lexeme

theorem scan_of_first {c : Char} {cs r : List Char} {kind : TokenKind}
    (hblank : Text.isBlank c = false) (hfirst : first c (cs ++ r) = .ok (kind, cs.length))
    (offset : Nat) :
    scan offset 0 (c :: cs ++ r) = (scan (offset + Text.byteLength (c :: cs)) 0 r).map
      (⟨kind, .ofList (c :: cs), offset⟩ :: ·) := by
  rw [List.cons_append, scan, if_neg (by simp [hblank]), hfirst]
  simp only
  rw [scan_skip, List.take_left, List.drop_left, Text.byteLength_cons, Nat.add_assoc]
  rfl

theorem scan_spelled {kind : TokenKind} {text r : List Char} (h : Spelled kind text)
    (hr : Separated r) (offset : Nat) :
    scan offset 0 (text ++ r) = (scan (offset + Text.byteLength text) 0 r).map
      (⟨kind, .ofList text, offset⟩ :: ·) := by
  obtain ⟨c, cs, rfl⟩ := exists_cons_of_spelled h
  exact scan_of_first (not_isBlank_of_spelled h) (first_of_spelled h hr) offset

theorem scan_leftParen (offset : Nat) (r : List Char) :
    scan offset 0 ('(' :: r) = (scan (offset + Text.byteLength ['(']) 0 r).map
      (⟨.leftParen, .ofList ['('], offset⟩ :: ·) := by
  have hfirst : first '(' ([] ++ r) = .ok (.leftParen, ([] : List Char).length) := rfl
  exact scan_of_first (by decide) hfirst offset

theorem scan_blank {c : Char} (h : Text.isBlank c) (offset : Nat) (cs : List Char) :
    scan offset 0 (c :: cs) = scan (offset + c.utf8Size) 0 cs := by rw [scan, if_pos h]

theorem spelled_of_scan {offset skip : Nat} {cs : List Char} {all : List Token}
    (h : scan offset skip cs = .ok all) :
    ∃ ts : List Token, all = ts ++ [.atEnd (offset + Text.byteLength cs)] ∧
      ∀ t ∈ ts, Spelled t.kind t.text.toList := by
  induction cs generalizing offset skip all with
  | nil =>
    cases skip <;> cases h <;> exact ⟨[], rfl, nofun⟩
  | cons c cs ih =>
    rw [Text.byteLength_cons, ← Nat.add_assoc]
    cases skip with
    | succ skip =>
      rw [scan] at h
      exact ih h
    | zero =>
      rw [scan] at h
      split at h
      · exact ih h
      split at h
      · cases h
      · next hfirst =>
        obtain ⟨rest, hrest, hall⟩ := Fallible.bind_eq_ok_iff.1 h
        obtain ⟨ts, rfl, hts⟩ := ih hrest
        cases hall
        refine ⟨_ :: ts, rfl, List.forall_mem_cons.2 ⟨?_, hts⟩⟩
        rw [String.toList_ofList]
        exact spelled_of_first hfirst

theorem spelled_of_tokenize {input : String} {all : List Token} (h : tokenize input = .ok all) :
    ∃ ts : List Token, all = ts ++ [.atEnd input.utf8ByteSize] ∧
      ∀ t ∈ ts, Spelled t.kind t.text.toList := by
  have hspelled := spelled_of_scan h
  rwa [Nat.zero_add, ← Text.utf8ByteSize_ofList, String.ofList_toList] at hspelled

theorem spelled_of_mem_tokens {input : String} {ts : List Token} {stop : Nat}
    (h : tokenize input = .ok (ts ++ [.atEnd stop])) : ∀ t ∈ ts, Spelled t.kind t.text.toList := by
  obtain ⟨us, hsame, hspelled⟩ := spelled_of_tokenize h
  obtain ⟨rfl, -⟩ := List.append_inj' hsame rfl
  exact hspelled

end FilterQuery.Expression.Lexeme
