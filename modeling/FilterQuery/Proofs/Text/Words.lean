import FilterQuery.Text.Blank

/-! The words of a text: what is left of it between its blanks. -/

namespace FilterQuery.Text

def Word (cs : List Char) : Prop := cs ≠ [] ∧ ∀ c ∈ cs, isBlank c = false

def Gap (cs : List Char) : Prop := ∀ c ∈ cs.head?, isBlank c

theorem not_of_mem_splitOnP {p : Char → Bool} {cs piece : List Char}
    (h : piece ∈ cs.splitOnP p) : ∀ c ∈ piece, p c = false := by
  induction cs generalizing piece with
  | nil =>
    obtain rfl := List.mem_singleton.1 (List.splitOnP_nil ▸ h)
    exact nofun
  | cons d ds ih =>
    rw [List.splitOnP_cons_eq_if_modifyHead] at h
    split at h
    · rcases List.mem_cons.1 h with rfl | h
      · exact nofun
      · exact ih h
    · next hd =>
      obtain ⟨first, rest, hpieces⟩ := List.exists_cons_of_ne_nil (List.splitOnP_ne_nil p ds)
      rw [hpieces, List.modifyHead_cons] at h
      rw [hpieces] at ih
      rcases List.mem_cons.1 h with rfl | h
      · exact List.forall_mem_cons.2 ⟨Bool.eq_false_iff.2 hd, ih List.mem_cons_self⟩
      · exact ih (List.mem_cons_of_mem _ h)

theorem not_mem_of_mem_splitOn {d : Char} {cs piece : List Char} (h : piece ∈ cs.splitOn d) :
    d ∉ piece := by
  intro hmem
  rw [List.splitOn_eq_splitOnP] at h
  have hne := not_of_mem_splitOnP h d hmem
  rw [beq_self_eq_true] at hne
  cases hne

section
variable {cs ds w : List Char} {ws : List (List Char)}

theorem words_append_blank {c : Char} (hc : isBlank c) (cs ds : List Char) :
    words (cs ++ c :: ds) = words cs ++ words ds := by
  rw [words, List.splitOnP_append_cons cs ds hc, List.filter_append]
  rfl

theorem words_nil : words [] = [] := rfl

theorem words_of_blanks (h : ∀ c ∈ cs, isBlank c) : words cs = [] := by
  induction cs with
  | nil => exact words_nil
  | cons c cs ih =>
    obtain ⟨hc, hcs⟩ := List.forall_mem_cons.1 h
    rw [← List.nil_append (c :: cs), words_append_blank hc, ih hcs]
    rfl

theorem words_of_word (h : Word w) : words w = [w] := by
  have hne : w.isEmpty = false := List.isEmpty_eq_false_iff.2 h.1
  rw [words, List.splitOnP_eq_singleton h.2, List.filter_cons_of_pos (by simp [hne])]
  rfl

theorem words_blanks_append (h : ∀ c ∈ cs, isBlank c) (ds : List Char) :
    words (cs ++ ds) = words ds := by
  induction cs with
  | nil => rfl
  | cons c cs ih =>
    obtain ⟨hc, hcs⟩ := List.forall_mem_cons.1 h
    have hfirst := words_append_blank hc [] (cs ++ ds)
    rw [List.cons_append]
    exact hfirst.trans (ih hcs)

theorem words_word_append (hw : Word w) (hds : Gap ds) : words (w ++ ds) = w :: words ds := by
  cases ds with
  | nil => rw [List.append_nil, words_of_word hw, words_nil]
  | cons c ds =>
    have hc : isBlank c := hds c rfl
    have hrest := words_append_blank hc [] ds
    rw [words_append_blank hc, words_of_word hw]
    exact congrArg (w :: ·) hrest.symm

theorem blank_or_exists_word (cs : List Char) :
    (∀ c ∈ cs, isBlank c) ∨ ∃ front w rest, cs = front ++ (w ++ rest) ∧
      (∀ c ∈ front, isBlank c) ∧ Word w ∧ Gap rest := by
  induction cs with
  | nil => exact .inl nofun
  | cons c cs ih =>
    cases hc : isBlank c with
    | true =>
      refine ih.imp (fun hblank => List.forall_mem_cons.2 ⟨hc, hblank⟩) ?_
      rintro ⟨front, w, rest, rfl, hfront, hw, hrest⟩
      exact ⟨c :: front, w, rest, rfl, List.forall_mem_cons.2 ⟨hc, hfront⟩, hw, hrest⟩
    | false =>
      refine .inr ⟨[], c :: cs.takeWhile (!isBlank ·), cs.dropWhile (!isBlank ·), ?_, nofun,
        ⟨List.cons_ne_nil _ _, List.forall_mem_cons.2 ⟨hc, fun d hd => ?_⟩⟩, fun d hd => ?_⟩
      · rw [List.nil_append, List.cons_append, List.takeWhile_append_dropWhile]
      · have hword := List.all_eq_true.1 List.all_takeWhile d hd
        rwa [Bool.not_eq_true'] at hword
      · have hgap := List.head?_dropWhile_not (!isBlank ·) cs
        rw [Option.mem_def.1 hd] at hgap
        simpa using hgap

theorem words_eq_nil_iff : words cs = [] ↔ ∀ c ∈ cs, isBlank c := by
  refine ⟨fun h => (blank_or_exists_word cs).resolve_right ?_, words_of_blanks⟩
  rintro ⟨front, w, rest, rfl, hfront, hw, hrest⟩
  rw [words_blanks_append hfront, words_word_append hw hrest] at h
  cases h

theorem words_eq_cons_iff : words cs = w :: ws ↔ ∃ front rest, cs = front ++ (w ++ rest) ∧
    (∀ c ∈ front, isBlank c) ∧ Word w ∧ Gap rest ∧ words rest = ws := by
  constructor
  · intro h
    rcases blank_or_exists_word cs with hblank | ⟨front, v, rest, rfl, hfront, hv, hrest⟩
    · rw [words_of_blanks hblank] at h
      cases h
    · rw [words_blanks_append hfront, words_word_append hv hrest] at h
      obtain ⟨rfl, hws⟩ := List.cons.inj h
      exact ⟨front, rest, rfl, hfront, hv, hrest, hws⟩
  · rintro ⟨front, rest, rfl, hfront, hw, hrest, rfl⟩
    rw [words_blanks_append hfront, words_word_append hw hrest]

end

end FilterQuery.Text
