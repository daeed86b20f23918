/-! Blank characters, and the trimming and splitting of text at them. -/

namespace FilterQuery.Text

/-- The characters with the Unicode property White_Space. -/
def blanks : List Char :=
  ['\t', '\n', '\x0b', '\x0c', '\r', ' ', '\u0085', '\u00a0', '\u1680',
   '\u2000', '\u2001', '\u2002', '\u2003', '\u2004', '\u2005', '\u2006', '\u2007', '\u2008',
   '\u2009', '\u200a', '\u2028', '\u2029', '\u202f', '\u205f', '\u3000']

def isBlank (c : Char) : Bool := blanks.contains c

def trim (cs : List Char) : List Char :=
  ((cs.dropWhile isBlank).reverse.dropWhile isBlank).reverse

theorem exists_trim (cs : List Char) : ∃ tail, (∀ c ∈ tail, isBlank c) ∧
    cs = cs.takeWhile isBlank ++ (trim cs ++ tail) := by
  let ds := cs.dropWhile isBlank
  have hsplit : ds = trim cs ++ (ds.reverse.takeWhile isBlank).reverse := by
    rw [trim, ← List.reverse_append, List.takeWhile_append_dropWhile, List.reverse_reverse]
  refine ⟨(ds.reverse.takeWhile isBlank).reverse, fun c hc => ?_, ?_⟩
  · exact List.all_eq_true.1 List.all_takeWhile c (List.mem_reverse.1 hc)
  · rw [← hsplit, List.takeWhile_append_dropWhile]

theorem all_isBlank_trim (cs : List Char) : (trim cs).all isBlank = cs.all isBlank := by
  obtain ⟨tail, htail, hcs⟩ := exists_trim cs
  have hall := congrArg (·.all isBlank) hcs
  simp only [List.all_append, List.all_takeWhile, List.all_eq_true.2 htail, Bool.true_and,
    Bool.and_true] at hall
  exact hall.symm

def words (cs : List Char) : List (List Char) :=
  (cs.splitOnP isBlank).filter (!·.isEmpty)

/-- The trimmed entries of a comma-separated list, without those that are empty. -/
def entries (cs : List Char) : List (List Char) :=
  ((cs.splitOn ',').map trim).filter (!·.isEmpty)

def nonBlank (s : String) : Option String :=
  if s.toList.all isBlank then none else some s

theorem nonBlank_eq_some_iff {s t : String} :
    nonBlank s = some t ↔ s = t ∧ ¬s.toList.all isBlank := by
  unfold nonBlank
  split
  · next h => simp [h]
  · next h => simp [h]

theorem bind_nonBlank_eq_some_iff {s : Option String} {t : String} :
    s.bind nonBlank = some t ↔ s = some t ∧ ¬t.toList.all isBlank := by
  rw [Option.bind_eq_some_iff]
  constructor
  · rintro ⟨u, hs, hu⟩
    obtain ⟨rfl, hblank⟩ := nonBlank_eq_some_iff.1 hu
    exact ⟨hs, hblank⟩
  · rintro ⟨hs, hblank⟩
    exact ⟨t, hs, nonBlank_eq_some_iff.2 ⟨rfl, hblank⟩⟩

def trimmed (s : String) : Option String :=
  (nonBlank s).map fun t => .ofList (trim t.toList)

theorem trimmed_bind_nonBlank (s : String) : (trimmed s).bind nonBlank = trimmed s := by
  unfold trimmed nonBlank
  split
  · rfl
  · next h =>
    rw [Option.map_some, Option.bind_some, String.toList_ofList, all_isBlank_trim, if_neg h]

/-- ASCII letters in lower case, all other characters as they are. -/
def foldCase (s : String) : String := .ofList (s.toList.map Char.toLower)

end FilterQuery.Text
