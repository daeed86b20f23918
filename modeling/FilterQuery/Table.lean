/-! Tables from keys to values, each key once and in the order of code points. -/

namespace FilterQuery

abbrev Table (α : Type) := List (String × α)

namespace Table

variable {α : Type}

def get? (t : Table α) (key : String) : Option α := t.lookup key

def insert (key : String) (value : α) : Table α → Table α
  | [] => [(key, value)]
  | (k, v) :: t =>
    if key < k then (key, value) :: (k, v) :: t
    else if key = k then (key, value) :: t
    else (k, v) :: insert key value t

def insertNew (key : String) (value : α) (t : Table α) : Table α :=
  if (t.get? key).isSome then t else t.insert key value

/-- The entries given, ordered; of two with one key the later. -/
def ofList (entries : List (String × α)) : Table α :=
  entries.foldl (fun t (k, v) => t.insert k v) []

theorem get?_insert (key other : String) (value : α) (t : Table α) :
    (t.insert key value).get? other = if other = key then some value else t.get? other := by
  induction t with
  | nil => simp only [insert, get?, List.lookup_cons, List.lookup_nil]; grind
  | cons f t ih =>
    obtain ⟨k, v⟩ := f
    simp only [insert]
    split
    · simp only [get?, List.lookup_cons]; grind
    · split
      · simp only [get?, List.lookup_cons]; grind
      · simp only [get?, List.lookup_cons] at ih ⊢; grind

theorem insert_perm {key : String} {t : Table α} (h : t.get? key = none) (value : α) :
    (t.insert key value).Perm ((key, value) :: t) := by
  induction t with
  | nil => exact .refl _
  | cons f t ih =>
    obtain ⟨hne, ht⟩ : key ≠ f.1 ∧ Table.get? t key = none := by
      simpa [get?, List.lookup_cons] using h
    simp only [insert, if_neg hne]
    split
    · exact .refl _
    · exact ((ih ht).cons f).trans (.swap _ _ _)

def Ordered (t : Table α) : Prop := t.Pairwise (·.1 < ·.1)

theorem mem_keys_insert {key : String} {value : α} {t : Table α} {f : String × α}
    (h : f ∈ t.insert key value) : f.1 = key ∨ f ∈ t := by
  induction t with
  | nil => simp_all [insert]
  | cons g t ih =>
    simp only [insert] at h
    split at h
    · grind
    · split at h <;> grind

theorem Ordered.insert {t : Table α} (h : t.Ordered) (key : String) (value : α) :
    (t.insert key value).Ordered := by
  induction t with
  | nil => exact List.pairwise_singleton _ _
  | cons g t ih =>
    obtain ⟨hg, ht⟩ := List.pairwise_cons.1 h
    simp only [Table.insert]
    split
    · next hlt =>
      refine List.pairwise_cons.2 ⟨fun f hf => ?_, h⟩
      rcases List.mem_cons.1 hf with rfl | hf
      · exact hlt
      · exact String.lt_trans hlt (hg f hf)
    · next hge =>
      split
      · next heq => exact List.pairwise_cons.2 ⟨fun f hf => heq ▸ hg f hf, ht⟩
      · next hne =>
        have hlt : g.1 < key :=
          Classical.byContradiction fun hn =>
            hne (String.le_antisymm (String.not_lt.1 hn) (String.not_lt.1 hge))
        refine List.pairwise_cons.2 ⟨fun f hf => ?_, ih ht⟩
        rcases mem_keys_insert hf with hf | hf
        · exact hf ▸ hlt
        · exact hg f hf

theorem ordered_ofList (entries : List (String × α)) : (ofList entries).Ordered := by
  suffices h : ∀ t : Table α, t.Ordered →
      (entries.foldl (fun t (k, v) => t.insert k v) t).Ordered from h [] List.Pairwise.nil
  induction entries with
  | nil => exact fun _ h => h
  | cons f fs ih => exact fun t h => ih _ (h.insert f.1 f.2)

end Table

end FilterQuery
