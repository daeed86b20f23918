import Mathlib.Data.List.Nodup
import FilterQuery.Proofs.Fallible
import FilterQuery.Table

/-! Tables by their lookups. A table made of a list has the last value that the list gives to a key,
and tables in order that have the same values are the same. -/

namespace FilterQuery.Table

variable {α : Type} {t u : Table α} {key : String} {value : α}

theorem get?_eq_none_iff : t.get? key = none ↔ key ∉ t.map Prod.fst := by
  rw [get?, List.lookup_eq_none_iff, List.mem_map]
  constructor
  · rintro h ⟨entry, hmem, rfl⟩
    exact bne_iff_ne.1 (h entry hmem) rfl
  · intro h entry hmem
    exact bne_iff_ne.2 fun hkey => h ⟨entry, hmem, hkey.symm⟩

theorem mem_of_get?_eq_some (h : t.get? key = some value) : (key, value) ∈ t :=
  Fallible.mem_of_lookup_eq_some h

/-! ## Tables in order -/

theorem Ordered.nodup_keys (h : t.Ordered) : (t.map Prod.fst).Nodup := by
  refine List.pairwise_map.2 (h.imp fun {entry other} hlt heq => ?_)
  exact String.lt_irrefl other.1 (heq ▸ hlt)

theorem get?_eq_some_iff_mem (h : (t.map Prod.fst).Nodup) :
    t.get? key = some value ↔ (key, value) ∈ t := by
  refine ⟨mem_of_get?_eq_some, fun hmem => ?_⟩
  obtain ⟨before, behind, rfl⟩ := List.append_of_mem hmem
  refine List.lookup_eq_some_iff.2 ⟨before, behind, rfl, fun entry hentry => ?_⟩
  rw [List.map_append, List.nodup_append] at h
  have hkey : key ∈ ((key, value) :: behind).map Prod.fst := List.mem_cons_self
  exact bne_iff_ne.2 (h.2.2 entry.1 (List.mem_map_of_mem hentry) key hkey).symm

theorem Ordered.ext (ht : t.Ordered) (hu : u.Ordered) (h : ∀ key, t.get? key = u.get? key) :
    t = u := by
  have hperm : t.Perm u := by
    rw [List.perm_ext_iff_of_nodup (List.Nodup.of_map _ ht.nodup_keys)
      (List.Nodup.of_map _ hu.nodup_keys)]
    rintro ⟨key, value⟩
    rw [← get?_eq_some_iff_mem ht.nodup_keys, h, get?_eq_some_iff_mem hu.nodup_keys]
  refine hperm.eq_of_pairwise (fun entry other _ _ hlt hgt => ?_) ht hu
  exact absurd (String.lt_trans hlt hgt) (String.lt_irrefl entry.1)

/-! ## Tables made of lists -/

def insertAll (t : Table α) (entries : List (String × α)) : Table α :=
  entries.foldl (fun t entry => t.insert entry.1 entry.2) t

theorem ofList_eq_insertAll (entries : List (String × α)) :
    ofList entries = insertAll [] entries := rfl

theorem get?_insertAll (t : Table α) (entries : List (String × α)) (key : String) :
    (t.insertAll entries).get? key = (entries.reverse.lookup key).or (t.get? key) := by
  induction entries generalizing t with
  | nil => rfl
  | cons entry entries ih =>
    have hlast : ((t.insert entry.1 entry.2).get? key) =
        ([entry].lookup key).or (t.get? key) := by
      rw [get?_insert, List.lookup_cons, List.lookup_nil]
      by_cases hkey : key = entry.1
      · rw [if_pos hkey, beq_iff_eq.2 hkey]
        rfl
      · rw [if_neg hkey, beq_eq_false_iff_ne.2 hkey]
        rfl
    rw [insertAll, List.foldl_cons, ← insertAll, ih, hlast, List.reverse_cons, List.lookup_append,
      Option.or_assoc]

theorem get?_ofList (entries : List (String × α)) (key : String) :
    (ofList entries).get? key = entries.reverse.lookup key := by
  rw [ofList_eq_insertAll, get?_insertAll]
  exact Option.or_none

theorem get?_ofList_eq_none_iff {entries : List (String × α)} :
    (ofList entries).get? key = none ↔ key ∉ entries.map Prod.fst := by
  rw [get?_ofList, ← get?, get?_eq_none_iff, List.map_reverse, List.mem_reverse]

theorem insertAll_perm {t : Table α} {entries : List (String × α)}
    (h : (entries.map Prod.fst).Nodup)
    (hnew : ∀ key ∈ entries.map Prod.fst, t.get? key = none) :
    (t.insertAll entries).Perm (t ++ entries) := by
  induction entries generalizing t with
  | nil => exact .of_eq (List.append_nil t).symm
  | cons entry entries ih =>
    obtain ⟨hfirst, hrest⟩ := List.nodup_cons.1 h
    obtain ⟨hentry, hentries⟩ := List.forall_mem_cons.1 hnew
    have hnext : ∀ key ∈ entries.map Prod.fst, (t.insert entry.1 entry.2).get? key = none := by
      intro key hkey
      rw [get?_insert, if_neg fun heq : key = entry.1 => hfirst (heq ▸ hkey)]
      exact hentries key hkey
    calc List.Perm _ (t.insert entry.1 entry.2 ++ entries) := ih hrest hnext
      List.Perm _ (entry :: t ++ entries) := (insert_perm hentry entry.2).append_right entries
      List.Perm _ (t ++ entry :: entries) := List.perm_middle.symm

theorem ofList_perm {entries : List (String × α)} (h : (entries.map Prod.fst).Nodup) :
    (ofList entries).Perm entries := insertAll_perm h fun _ _ => rfl

/-- Keys that each have the value that goes with them, however often they are listed. -/
theorem get?_ofList_map (keys : List String) (f : String → α) (key : String) :
    (ofList (keys.map fun k => (k, f k))).get? key = if key ∈ keys then some (f key) else none := by
  have hkeys : (keys.map fun k => (k, f k)).map Prod.fst = keys := by
    rw [List.map_map]
    exact List.map_id keys
  split
  · next hmem =>
    have hsome : (ofList (keys.map fun k => (k, f k))).get? key ≠ none := by
      rw [ne_eq, get?_ofList_eq_none_iff, hkeys]
      exact not_not_intro hmem
    obtain ⟨value, hvalue⟩ := Option.ne_none_iff_exists'.1 hsome
    rw [hvalue]
    rw [get?_ofList] at hvalue
    obtain ⟨k, -, hentry⟩ := List.mem_map.1 (List.mem_reverse.1 (mem_of_get?_eq_some hvalue))
    cases hentry
    rfl
  · next hmem =>
    rw [get?_ofList_eq_none_iff, hkeys]
    exact hmem

end FilterQuery.Table
