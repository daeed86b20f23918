import FilterQuery.Proofs.Text.Words

/-! The entries of a comma-separated list, in all of their spellings. What is read from such a text
is what it was written for, and every text is one for what is read from it. -/

namespace FilterQuery.Text

structure Trimmed (cs : List Char) : Prop where
  front : ∀ c ∈ cs.head?, isBlank c = false
  behind : ∀ c ∈ cs.getLast?, isBlank c = false

structure Entry (cs : List Char) : Prop extends Trimmed cs where
  nonempty : cs ≠ []
  comma : ',' ∉ cs

/-- Pieces for entries in order, each entry with blanks about it, and blank pieces anywhere among
them. -/
inductive Pieces : List (List Char) → List (List Char) → Prop where
  | nil : Pieces [] []
  | blank {values pieces : List (List Char)} {piece : List Char} : (∀ c ∈ piece, isBlank c) →
      Pieces values pieces → Pieces values (piece :: pieces)
  | value {values pieces : List (List Char)} {front v tail : List Char} :
      (∀ c ∈ front, isBlank c) → (∀ c ∈ tail, isBlank c) → Pieces values pieces →
      Pieces (v :: values) ((front ++ (v ++ tail)) :: pieces)

def joined (pieces : List (List Char)) : List Char := [','].intercalate pieces

/-! ## Trimming -/

section
variable {cs front v tail : List Char}

theorem dropWhile_blanks_append (hfront : ∀ c ∈ front, isBlank c)
    (hv : ∀ c ∈ v.head?, isBlank c = false) : (front ++ v).dropWhile isBlank = v := by
  rw [List.dropWhile_append_of_pos hfront]
  cases v with
  | nil => rfl
  | cons c v => exact List.dropWhile_cons_of_neg (Bool.eq_false_iff.1 (hv c rfl))

theorem not_isBlank_of_mem_head?_dropWhile (cs : List Char) :
    ∀ c ∈ (cs.dropWhile isBlank).head?, isBlank c = false := by
  intro c hc
  have hfirst := List.head?_dropWhile_not isBlank cs
  rwa [Option.mem_def.1 hc] at hfirst

theorem trim_eq_nil_iff : trim cs = [] ↔ ∀ c ∈ cs, isBlank c := by
  constructor
  · intro h
    have hall := all_isBlank_trim cs
    rw [h] at hall
    exact List.all_eq_true.1 hall.symm
  · intro h
    have hdrop : (cs ++ []).dropWhile isBlank = [] := dropWhile_blanks_append h nofun
    rw [List.append_nil] at hdrop
    rw [trim, hdrop]
    rfl

theorem head?_append_of_trimmed (hv : Trimmed v) (hne : v ≠ []) (tail : List Char) :
    ∀ c ∈ (v ++ tail).head?, isBlank c = false := by
  obtain ⟨d, ds, rfl⟩ := List.exists_cons_of_ne_nil hne
  exact hv.front

theorem trim_append (hfront : ∀ c ∈ front, isBlank c) (hv : Trimmed v) (hne : v ≠ [])
    (htail : ∀ c ∈ tail, isBlank c) : trim (front ++ (v ++ tail)) = v := by
  have hreverse : ∀ c ∈ tail.reverse, isBlank c := fun c hc => htail c (List.mem_reverse.1 hc)
  have hlast : ∀ c ∈ v.reverse.head?, isBlank c = false := by
    rw [List.head?_reverse]
    exact hv.behind
  rw [trim, dropWhile_blanks_append hfront (head?_append_of_trimmed hv hne tail),
    List.reverse_append, dropWhile_blanks_append hreverse hlast, List.reverse_reverse]

theorem dropWhile_eq_trim_append (cs : List Char) :
    ∃ tail, cs.dropWhile isBlank = trim cs ++ tail := by
  obtain ⟨tail, -, hcs⟩ := exists_trim cs
  have hsplit : cs.takeWhile isBlank ++ cs.dropWhile isBlank =
      cs.takeWhile isBlank ++ (trim cs ++ tail) := by
    rw [List.takeWhile_append_dropWhile, ← hcs]
  exact ⟨tail, List.append_cancel_left hsplit⟩

theorem trimmed_trim (cs : List Char) : Trimmed (trim cs) where
  front c hc := by
    obtain ⟨tail, htail⟩ := dropWhile_eq_trim_append cs
    refine not_isBlank_of_mem_head?_dropWhile cs c ?_
    rw [htail, List.head?_append, Option.mem_def.1 hc]
    rfl
  behind c hc := by
    rw [trim, List.getLast?_reverse] at hc
    exact not_isBlank_of_mem_head?_dropWhile _ c hc

end

/-! ## Lists -/

section
variable {values pieces : List (List Char)}

def kept (pieces : List (List Char)) : List (List Char) :=
  (pieces.map trim).filter (!·.isEmpty)

theorem kept_cons_of_blank {piece : List Char} (h : ∀ c ∈ piece, isBlank c) :
    kept (piece :: pieces) = kept pieces := by
  rw [kept, List.map_cons, trim_eq_nil_iff.2 h]
  rfl

theorem kept_cons_of_trim {piece v : List Char} (h : trim piece = v) (hne : v ≠ []) :
    kept (piece :: pieces) = v :: kept pieces := by
  have hkeep : v.isEmpty = false := List.isEmpty_eq_false_iff.2 hne
  rw [kept, List.map_cons, h, List.filter_cons_of_pos (by rw [hkeep]; rfl)]
  rfl

theorem Pieces.kept_eq (h : Pieces values pieces) (hvalues : ∀ v ∈ values, Entry v) :
    kept pieces = values := by
  induction h with
  | nil => rfl
  | blank hblank _ ih => rw [kept_cons_of_blank hblank, ih hvalues]
  | value hfront htail _ ih =>
    obtain ⟨hv, hvalues⟩ := List.forall_mem_cons.1 hvalues
    have htrim := trim_append hfront hv.toTrimmed hv.nonempty htail
    rw [kept_cons_of_trim htrim hv.nonempty, ih hvalues]

theorem pieces_kept (pieces : List (List Char)) : Pieces (kept pieces) pieces := by
  induction pieces with
  | nil => exact .nil
  | cons piece pieces ih =>
    by_cases hblank : ∀ c ∈ piece, isBlank c
    · rw [kept_cons_of_blank hblank]
      exact .blank hblank ih
    · obtain ⟨tail, htail, hpiece⟩ := exists_trim piece
      have hfront := List.all_eq_true.1 (List.all_takeWhile (p := isBlank) (l := piece))
      have hvalue : Pieces (trim piece :: kept pieces) (_ :: pieces) := .value hfront htail ih
      rw [← hpiece] at hvalue
      rwa [kept_cons_of_trim rfl (mt trim_eq_nil_iff.1 hblank)]

theorem comma_not_mem_of_blanks {cs : List Char} (h : ∀ c ∈ cs, isBlank c) : ',' ∉ cs := by
  intro hmem
  have hcomma : isBlank ',' = false := by decide
  rw [h _ hmem] at hcomma
  cases hcomma

theorem Pieces.comma_not_mem (h : Pieces values pieces) (hvalues : ∀ v ∈ values, Entry v) :
    ∀ piece ∈ pieces, ',' ∉ piece := by
  induction h with
  | nil => exact nofun
  | blank hblank _ ih =>
    exact List.forall_mem_cons.2 ⟨comma_not_mem_of_blanks hblank, ih hvalues⟩
  | value hfront htail _ ih =>
    obtain ⟨hv, hvalues⟩ := List.forall_mem_cons.1 hvalues
    refine List.forall_mem_cons.2 ⟨?_, ih hvalues⟩
    rw [List.mem_append, List.mem_append]
    exact not_or.2 ⟨comma_not_mem_of_blanks hfront,
      not_or.2 ⟨hv.comma, comma_not_mem_of_blanks htail⟩⟩

theorem entries_joined (h : ∀ piece ∈ pieces, ',' ∉ piece) :
    entries (joined pieces) = kept pieces := by
  unfold entries joined
  cases pieces with
  | nil => rfl
  | cons piece pieces =>
    rw [List.splitOn_intercalate ',' h (List.cons_ne_nil _ _)]
    rfl

theorem Pieces.entries_eq (h : Pieces values pieces) (hvalues : ∀ v ∈ values, Entry v) :
    entries (joined pieces) = values := by
  rw [entries_joined (h.comma_not_mem hvalues), h.kept_eq hvalues]

theorem pieces_splitOn (cs : List Char) :
    joined (cs.splitOn ',') = cs ∧ Pieces (entries cs) (cs.splitOn ',') :=
  ⟨List.intercalate_splitOn ',', pieces_kept _⟩

theorem entry_of_mem_entries {cs v : List Char} (h : v ∈ entries cs) : Entry v := by
  obtain ⟨hmem, hne⟩ := List.mem_filter.1 h
  obtain ⟨piece, hpiece, rfl⟩ := List.mem_map.1 hmem
  obtain ⟨tail, -, hsplit⟩ := exists_trim piece
  refine ⟨trimmed_trim piece, fun hnil => ?_, fun hcomma => ?_⟩
  · rw [hnil] at hne
    cases hne
  · refine not_mem_of_mem_splitOn hpiece ?_
    rw [hsplit]
    exact List.mem_append_right _ (List.mem_append_left _ hcomma)

theorem pieces_self (values : List (List Char)) : Pieces values values := by
  induction values with
  | nil => exact .nil
  | cons v values ih =>
    have hvalue : Pieces (v :: values) (([] ++ (v ++ [])) :: values) := .value nofun nofun ih
    rwa [List.append_nil, List.nil_append] at hvalue

end

end FilterQuery.Text
