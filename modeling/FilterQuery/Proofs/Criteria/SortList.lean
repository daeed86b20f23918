import FilterQuery.Criteria.SortKey
import FilterQuery.Proofs.Text.Words

/-! Lists of sort keys as text, in all of their spellings. What is read from such a text is what it
was written for, and every text is one for what is read from it. -/

namespace FilterQuery.SortKey

open Text (isBlank foldCase Word Gap words)

/-- That a key can be written in a list: its field is a word without a comma, and its type is the
one that keys have which are read. -/
structure Listable (k : SortKey) : Prop where
  word : Word k.field.toList
  comma : ',' ∉ k.field.toList
  valueType : k.valueType = .string

/-- The direction behind a field. It is `desc` in any case that makes a key descending, no other
word does, and of what is behind the word nothing counts. -/
inductive Direction : Bool → List Char → Prop where
  | absent {gap : List Char} : (∀ c ∈ gap, isBlank c) → Direction false gap
  | word {gap w rest : List Char} {descending : Bool} : gap ≠ [] → (∀ c ∈ gap, isBlank c) →
      Word w → Gap rest → (descending = true ↔ foldCase (.ofList w) = "desc") →
      Direction descending (gap ++ (w ++ rest))

inductive WrittenAs (k : SortKey) : List Char → Prop where
  | mk {front behind : List Char} : (∀ c ∈ front, isBlank c) → Direction k.descending behind →
      WrittenAs k (front ++ (k.field.toList ++ behind))

/-- The clauses for keys in order, none with a comma in it, and blank ones anywhere among them. -/
inductive ListedAs : List SortKey → List (List Char) → Prop where
  | nil : ListedAs [] []
  | blank {keys : List SortKey} {clause : List Char} {clauses : List (List Char)} :
      (∀ c ∈ clause, isBlank c) → ListedAs keys clauses → ListedAs keys (clause :: clauses)
  | key {k : SortKey} {keys : List SortKey} {clause : List Char} {clauses : List (List Char)} :
      WrittenAs k clause → ',' ∉ clause → ListedAs keys clauses →
      ListedAs (k :: keys) (clause :: clauses)

def joined (clauses : List (List Char)) : String := .ofList ([','].intercalate clauses)

/-! ## Clauses -/

section
variable {k : SortKey} {behind clause : List Char} {descending : Bool}

theorem direction_iff : Direction descending behind ↔ Gap behind ∧
    ((words behind).head?.any fun w => foldCase (.ofList w) = "desc") = descending := by
  constructor
  · intro h
    cases h with
    | absent hgap =>
      refine ⟨fun c hc => hgap c (List.mem_of_head? hc), ?_⟩
      rw [Text.words_of_blanks hgap]
      rfl
    | word hne hgap hw hrest hdesc =>
      obtain ⟨c, cs, rfl⟩ := List.exists_cons_of_ne_nil hne
      refine ⟨fun d hd => ?_, ?_⟩
      · obtain rfl := Option.some.inj hd
        exact hgap c List.mem_cons_self
      · rw [Text.words_blanks_append hgap, Text.words_word_append hw hrest, Bool.eq_iff_iff, hdesc]
        exact decide_eq_true_iff
  · rintro ⟨hgap, rfl⟩
    cases hwords : words behind with
    | nil => exact .absent (Text.words_eq_nil_iff.1 hwords)
    | cons w ws =>
      obtain ⟨gap, rest, rfl, hblank, hw, hrest, -⟩ := Text.words_eq_cons_iff.1 hwords
      refine .word ?_ hblank hw hrest decide_eq_true_iff
      -- The text starts with a blank, so it does not start with the word.
      rintro rfl
      obtain ⟨c, cs, rfl⟩ := List.exists_cons_of_ne_nil hw.1
      have hc := hw.2 c List.mem_cons_self
      rw [hgap c rfl] at hc
      cases hc

theorem read?_eq_none_iff : read? clause = none ↔ ∀ c ∈ clause, isBlank c := by
  rw [← Text.words_eq_nil_iff]
  unfold read?
  split
  · next h => exact iff_of_true rfl h
  · next h => exact iff_of_false nofun (h ▸ List.cons_ne_nil _ _)

theorem read?_eq_some_iff : read? clause = some k ↔
    WrittenAs k clause ∧ Word k.field.toList ∧ k.valueType = .string := by
  constructor
  · intro h
    unfold read? at h
    split at h
    · cases h
    · next field rest hwords =>
      obtain rfl := Option.some.inj h
      obtain ⟨name, rfl⟩ : ∃ name : String, field = name.toList :=
        ⟨.ofList field, String.toList_ofList.symm⟩
      obtain ⟨front, behind, rfl, hfront, hname, hgap, rfl⟩ := Text.words_eq_cons_iff.1 hwords
      rw [String.ofList_toList]
      exact ⟨.mk hfront (direction_iff.2 ⟨hgap, rfl⟩), hname, rfl⟩
  · rintro ⟨⟨hfront, hdirection⟩, hword, htype⟩
    obtain ⟨hgap, hdescending⟩ := direction_iff.1 hdirection
    obtain ⟨field, valueType, descending⟩ := k
    obtain rfl : valueType = .string := htype
    unfold read?
    rw [Text.words_blanks_append hfront, Text.words_word_append hword hgap]
    simp only [String.ofList_toList, Option.some.injEq, SortKey.mk.injEq, true_and]
    exact hdescending

end

/-! ## Lists -/

variable {keys : List SortKey} {clauses : List (List Char)}

theorem ListedAs.filterMap_eq (h : ListedAs keys clauses) (hkeys : ∀ k ∈ keys, k.Listable) :
    clauses.filterMap read? = keys := by
  induction h with
  | nil => rfl
  | blank hblank _ ih => rw [List.filterMap_cons_none (read?_eq_none_iff.2 hblank), ih hkeys]
  | key hclause _ _ ih =>
    obtain ⟨hk, hkeys⟩ := List.forall_mem_cons.1 hkeys
    have hread := read?_eq_some_iff.2 ⟨hclause, hk.word, hk.valueType⟩
    rw [List.filterMap_cons_some hread, ih hkeys]

theorem listedAs_filterMap (h : ∀ clause ∈ clauses, ',' ∉ clause) :
    ListedAs (clauses.filterMap read?) clauses := by
  induction clauses with
  | nil => exact .nil
  | cons clause clauses ih =>
    obtain ⟨hcomma, hclauses⟩ := List.forall_mem_cons.1 h
    cases hread : read? clause with
    | none =>
      rw [List.filterMap_cons_none hread]
      exact .blank (read?_eq_none_iff.1 hread) (ih hclauses)
    | some k =>
      rw [List.filterMap_cons_some hread]
      exact .key (read?_eq_some_iff.1 hread).1 hcomma (ih hclauses)

theorem ListedAs.comma_not_mem (h : ListedAs keys clauses) : ∀ clause ∈ clauses, ',' ∉ clause := by
  have hcomma : isBlank ',' = false := by decide
  induction h with
  | nil => exact nofun
  | blank hblank _ ih =>
    refine List.forall_mem_cons.2 ⟨fun hmem => ?_, ih⟩
    rw [hblank _ hmem] at hcomma
    cases hcomma
  | key _ hclause _ ih => exact List.forall_mem_cons.2 ⟨hclause, ih⟩

theorem readList_joined (h : ∀ clause ∈ clauses, ',' ∉ clause) :
    readList (joined clauses) = clauses.filterMap read? := by
  unfold readList joined
  rw [String.toList_ofList]
  cases clauses with
  | nil => rfl
  | cons clause clauses => rw [List.splitOn_intercalate ',' h (List.cons_ne_nil _ _)]

theorem ListedAs.readList_eq (h : ListedAs keys clauses) (hkeys : ∀ k ∈ keys, k.Listable) :
    readList (joined clauses) = keys := by
  rw [readList_joined h.comma_not_mem, h.filterMap_eq hkeys]

theorem listable_of_mem_readList {s : String} : ∀ k ∈ readList s, k.Listable := by
  intro k hk
  obtain ⟨clause, hclause, hread⟩ := List.mem_filterMap.1 hk
  obtain ⟨⟨hfront, _⟩, hword, htype⟩ := read?_eq_some_iff.1 hread
  refine ⟨hword, fun hmem => Text.not_mem_of_mem_splitOn hclause ?_, htype⟩
  exact List.mem_append_right _ (List.mem_append_left _ hmem)

def chars (k : SortKey) : List Char :=
  k.field.toList ++ if k.descending then " desc".toList else []

theorem writtenAs_chars (k : SortKey) : WrittenAs k k.chars := by
  have hfront : ∀ c ∈ ([] : List Char), isBlank c := nofun
  have hblank : "desc".toList.any isBlank = false := by decide
  have hword : Word "desc".toList :=
    ⟨by decide, fun c hc => Bool.eq_false_iff.2 (List.any_eq_false.1 hblank c hc)⟩
  have hdesc : Direction true ([' '] ++ ("desc".toList ++ [])) :=
    .word (List.cons_ne_nil _ _) (List.forall_mem_singleton.2 rfl) hword nofun (by decide)
  refine .mk hfront ?_
  cases k.descending with
  | false => exact .absent nofun
  | true => exact hdesc

theorem listedAs_chars (h : ∀ k ∈ keys, k.Listable) : ListedAs keys (keys.map chars) := by
  induction keys with
  | nil => exact .nil
  | cons k keys ih =>
    obtain ⟨hk, hkeys⟩ := List.forall_mem_cons.1 h
    refine .key (writtenAs_chars k) ?_ (ih hkeys)
    rw [chars, List.mem_append]
    refine not_or.2 ⟨hk.comma, ?_⟩
    cases k.descending <;> decide

/-- A list of keys is read from any text that it can be written as, and there is one. The keys that
are read from a text can be written, and the text is one of those that they can be written as. -/
theorem sort_lists_read_back {keys : List SortKey} (hkeys : ∀ k ∈ keys, k.Listable) (s : String) :
    ListedAs keys (keys.map chars) ∧
      (∀ clauses, ListedAs keys clauses → readList (joined clauses) = keys) ∧
      (∀ k ∈ readList s, k.Listable) ∧
      (∃ clauses, joined clauses = s ∧ ListedAs (readList s) clauses) ∧
      ∀ clauses, ListedAs (readList s) clauses → readList (joined clauses) = readList s := by
  have hread := listable_of_mem_readList (s := s)
  refine ⟨listedAs_chars hkeys, fun _ h => h.readList_eq hkeys, hread,
    ⟨s.toList.splitOn ',', ?_, ?_⟩, fun _ h => h.readList_eq hread⟩
  · rw [joined, List.intercalate_splitOn, String.ofList_toList]
  · exact listedAs_filterMap fun _ => Text.not_mem_of_mem_splitOn

/-- A field twice, one in descending order behind a wide blank, and clauses that are blank. -/
theorem sort_lists_read_back_repeated :
    let keys : List SortKey :=
      [⟨"name", .string, false⟩, ⟨"age", .string, true⟩, ⟨"name", .string, false⟩]
    let clauses := ["name asc".toList, "\tage\u3000dEsC".toList, [' '], [], "name".toList]
    (∀ k ∈ keys, k.Listable) ∧ ListedAs keys clauses ∧ readList (joined clauses) = keys := by
  intro keys clauses
  have hkeys : ∀ k ∈ keys, k.Listable := by
    have hread : readList "name,age desc,name" = keys := by decide
    rw [← hread]
    exact listable_of_mem_readList
  have hclauses : ListedAs keys clauses := by
    have hread : clauses.filterMap read? = keys := by decide
    rw [← hread]
    exact listedAs_filterMap (by decide)
  exact ⟨hkeys, hclauses, (sort_lists_read_back hkeys "").2.1 clauses hclauses⟩

end FilterQuery.SortKey
