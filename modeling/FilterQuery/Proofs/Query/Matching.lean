import FilterQuery.Query.Compilation

/-! The texts that wildcard patterns match, and that the patterns of filters match the text of their
literals and nothing else, whatever characters this is made of. -/

namespace FilterQuery.Query

open Expression

namespace Pattern

def somewhere (rest : List Char → Bool) : List Char → Bool
  | [] => rest []
  | c :: cs => rest (c :: cs) || somewhere rest cs

def next (test : Char → Bool) (rest : List Char → Bool) : List Char → Bool
  | [] => false
  | c :: cs => test c && rest cs

/-- Whether a text matches a pattern, when characters are the same as far as `fold` keeps them
apart. A backslash at the very end has no character to stand before, and is one like any other. -/
def accepts (fold : Char → Char) : List Char → List Char → Bool
  | [] => List.isEmpty
  | '*' :: p => somewhere (accepts fold p)
  | '?' :: p => next (fun _ => true) (accepts fold p)
  | '\\' :: e :: p => next (fold e = fold ·) (accepts fold p)
  | e :: p => next (fold e = fold ·) (accepts fold p)

def isSpecial (c : Char) : Bool := c = '\\' || c = '*' || c = '?'

/-- A folding of one character at a time, under which none becomes or ceases to be special. -/
structure Folding where
  fold : Char → Char
  fold_special : ∀ c, isSpecial c → fold c = c
  special_of_fold : ∀ c, isSpecial (fold c) → isSpecial c

theorem special_of_toLower {c : Char} (h : isSpecial c.toLower) : isSpecial c := by
  unfold Char.toLower at h
  split at h
  · next hupper =>
    -- An upper case letter becomes a letter, and these lie between the special characters.
    simp only [isSpecial, Bool.or_eq_true, decide_eq_true_eq, Char.ext_iff, ge_iff_le,
      UInt32.le_iff_toNat_le, ← UInt32.toNat_inj, UInt32.toNat_add] at h hupper
    simp at h hupper
    omega
  · exact h

def Folding.lower : Folding where
  fold := Char.toLower
  fold_special c h := by
    simp only [isSpecial, Bool.or_eq_true, decide_eq_true_eq] at h
    rcases h with (rfl | rfl) | rfl <;> rfl
  special_of_fold _ := special_of_toLower

def escapeChar (c : Char) : List Char := if isSpecial c then ['\\', c] else [c]

theorem escape_cons (c : Char) (cs : List Char) : escape (c :: cs) = escapeChar c ++ escape cs := by
  simp [escape, escapeChar, isSpecial, or_assoc]

theorem accepts_plain {fold : Char → Char} {e : Char} (he : isSpecial e = false) (p : List Char) :
    accepts fold (e :: p) = next (fold e = fold ·) (accepts fold p) := by
  simp [isSpecial] at he
  rw [accepts] <;> simp_all

theorem accepts_escapeChar (fold : Char → Char) (e : Char) (p : List Char) :
    accepts fold (escapeChar e ++ p) = next (fold e = fold ·) (accepts fold p) := by
  unfold escapeChar
  split
  · rfl
  · next he => exact accepts_plain (Bool.not_eq_true _ ▸ he) p

theorem somewhere_iff (rest : List Char → Bool) (cs : List Char) :
    somewhere rest cs ↔ ∃ skipped behind, cs = skipped ++ behind ∧ rest behind := by
  induction cs with
  | nil =>
    refine ⟨fun h => ⟨[], [], rfl, h⟩, ?_⟩
    rintro ⟨skipped, behind, h, hrest⟩
    rwa [(List.append_eq_nil_iff.1 h.symm).2] at hrest
  | cons c cs ih =>
    rw [somewhere, Bool.or_eq_true, ih]
    constructor
    · rintro (h | ⟨skipped, behind, rfl, h⟩)
      · exact ⟨[], c :: cs, rfl, h⟩
      · exact ⟨c :: skipped, behind, rfl, h⟩
    · rintro ⟨skipped, behind, h, hrest⟩
      rcases List.cons_eq_append_iff.1 h with ⟨-, rfl⟩ | ⟨skipped, -, rfl⟩
      · exact .inl hrest
      · exact .inr ⟨skipped, behind, rfl, hrest⟩

theorem next_iff (test : Char → Bool) (rest : List Char → Bool) (cs : List Char) :
    next test rest cs ↔ ∃ d ds, cs = d :: ds ∧ test d ∧ rest ds := by
  cases cs with
  | nil => exact ⟨nofun, nofun⟩
  | cons c cs =>
    rw [next, Bool.and_eq_true]
    refine ⟨fun h => ⟨c, cs, rfl, h⟩, ?_⟩
    rintro ⟨_, _, ⟨⟩, h⟩
    exact h

theorem accepts_escape_append (fold : Char → Char) (v p cs : List Char) :
    accepts fold (escape v ++ p) cs ↔ ∃ taken behind, cs = taken ++ behind ∧
      taken.map fold = v.map fold ∧ accepts fold p behind := by
  induction v generalizing cs with
  | nil =>
    refine ⟨fun h => ⟨[], cs, rfl, rfl, h⟩, ?_⟩
    rintro ⟨taken, behind, rfl, htaken, h⟩
    rwa [List.map_eq_nil_iff.1 htaken]
  | cons e v ih =>
    rw [escape_cons, List.append_assoc, accepts_escapeChar, next_iff]
    constructor
    · rintro ⟨d, ds, rfl, hd, hds⟩
      obtain ⟨taken, behind, rfl, htaken, hbehind⟩ := (ih ds).1 hds
      have hfold : fold d = fold e := (of_decide_eq_true hd).symm
      refine ⟨d :: taken, behind, rfl, ?_, hbehind⟩
      rw [List.map_cons, List.map_cons, hfold, htaken]
    · rintro ⟨taken, behind, rfl, htaken, hbehind⟩
      obtain ⟨d, ds, rfl, hd, hds⟩ := List.map_eq_cons_iff.1 htaken
      exact ⟨d, ds ++ behind, rfl, decide_eq_true hd.symm, (ih _).2 ⟨ds, behind, rfl, hds, hbehind⟩⟩

theorem accepts_star (fold : Char → Char) (p cs : List Char) :
    accepts fold ('*' :: p) cs ↔
      ∃ skipped behind, cs = skipped ++ behind ∧ accepts fold p behind := by
  rw [accepts, somewhere_iff]

theorem accepts_open (fold : Char → Char) (cs : List Char) : accepts fold ['*'] cs :=
  (accepts_star fold [] cs).2 ⟨cs, [], (List.append_nil cs).symm, rfl⟩

theorem accepts_ending (fold : Char → Char) (v s : String) :
    accepts fold (ending v).toList s.toList ↔ v.toList.map fold <:+ s.toList.map fold := by
  rw [ending, String.toList_ofList, accepts_star]
  constructor
  · rintro ⟨skipped, behind, hs, h⟩
    rw [← List.append_nil (escape v.toList), accepts_escape_append] at h
    obtain ⟨taken, rest, rfl, htaken, hrest⟩ := h
    obtain rfl := List.isEmpty_iff.1 hrest
    exact ⟨skipped.map fold, by rw [hs, List.append_nil, List.map_append, htaken]⟩
  · rintro ⟨before, h⟩
    obtain ⟨skipped, behind, hs, -, hbehind⟩ := List.map_eq_append_iff.1 h.symm
    refine ⟨skipped, behind, hs, ?_⟩
    rw [← List.append_nil (escape v.toList), accepts_escape_append]
    exact ⟨behind, [], (List.append_nil _).symm, hbehind, rfl⟩

theorem accepts_containing (fold : Char → Char) (v s : String) :
    accepts fold (containing v).toList s.toList ↔ v.toList.map fold <:+: s.toList.map fold := by
  rw [containing, String.toList_ofList, List.cons_append, accepts_star]
  constructor
  · rintro ⟨skipped, behind, hs, h⟩
    obtain ⟨taken, rest, rfl, htaken, -⟩ := (accepts_escape_append ..).1 h
    refine ⟨skipped.map fold, rest.map fold, ?_⟩
    simp only [hs, List.map_append, htaken, List.append_assoc]
  · rintro ⟨before, after, h⟩
    obtain ⟨front, rest, hs, hfront, -⟩ := List.map_eq_append_iff.1 h.symm
    obtain ⟨skipped, taken, rfl, -, htaken⟩ := List.map_eq_append_iff.1 hfront
    refine ⟨skipped, taken ++ rest, by rw [hs, List.append_assoc], ?_⟩
    exact (accepts_escape_append ..).2 ⟨taken, rest, rfl, htaken, accepts_open fold rest⟩

theorem next_map (test : Char → Bool) (rest : List Char → Bool) (g : Char → Char)
    (cs : List Char) :
    next test rest (cs.map g) = next (fun c => test (g c)) (fun ds => rest (ds.map g)) cs := by
  cases cs <;> rfl

theorem somewhere_map (rest : List Char → Bool) (g : Char → Char) (cs : List Char) :
    somewhere rest (cs.map g) = somewhere (fun ds => rest (ds.map g)) cs := by
  induction cs with
  | nil => rfl
  | cons c cs ih => exact congrArg (rest ((c :: cs).map g) || ·) ih

theorem accepts_map (f : Folding) (p cs : List Char) :
    accepts id (p.map f.fold) (cs.map f.fold) = accepts f.fold p cs := by
  have hspecial {e : Char} (he : isSpecial e) : f.fold e = e := f.fold_special e he
  fun_induction accepts f.fold p generalizing cs with
  | case1 => cases cs <;> rfl
  | case2 p ih =>
    rw [List.map_cons, hspecial rfl, accepts, somewhere_map]
    simp only [ih]
  | case3 p ih =>
    rw [List.map_cons, hspecial rfl, accepts, next_map]
    simp only [ih]
  | case4 e p ih =>
    rw [List.map_cons, hspecial rfl, List.map_cons, accepts, next_map]
    simp only [ih, id]
  | case5 e p hstar hany hescape ih =>
    by_cases he : isSpecial e
    · -- Of the special characters only a backslash at the end stands for itself.
      have hend : e = '\\' ∧ p = [] := by
        cases p <;> simp_all [isSpecial]
      obtain ⟨rfl, rfl⟩ := hend
      cases cs <;> simp [hspecial he, accepts, next]
    · have hfold : isSpecial (f.fold e) = false :=
        Bool.not_eq_true _ ▸ mt (f.special_of_fold e) he
      rw [List.map_cons, accepts_plain hfold, next_map]
      simp only [ih, id]

end Pattern

open Pattern in
/-- Every literal with a text has patterns, and these match that text alone: `contains` where it
lies anywhere in the other text, `endswith` where it lies at the end, both to the letter, and `~`
and `!~` where it lies anywhere up to the case of letters. -/
theorem patterns_match_text_of_literal (p : Property) (value : Literal) {text : String}
    (h : value.text? = some text) :
    let toTheLetter (pattern : String) : Clause := .wildcard p.name pattern false
    let anyCase : Clause := .wildcard p.name (containing text) true
    let ofField (query : Clause) : Except Defect Clause := .ok (within p.nestedRoot? query)
    (compile (.comparison p .contains value) = ofField (toTheLetter (containing text)) ∧
      compile (.call .contains p value) = ofField (toTheLetter (containing text)) ∧
      compile (.comparison p .endsWith value) = ofField (toTheLetter (ending text)) ∧
      compile (.call .endsWith p value) = ofField (toTheLetter (ending text)) ∧
      compile (.comparison p .like value) = ofField anyCase ∧
      compile (.comparison p .notLike value) = ofField (.no anyCase)) ∧
    ∀ s : String,
      (accepts id (containing text).toList s.toList ↔ text.toList <:+: s.toList) ∧
      (accepts id (ending text).toList s.toList ↔ text.toList <:+ s.toList) ∧
      ∀ f : Folding,
        (accepts f.fold (containing text).toList s.toList ↔
          text.toList.map f.fold <:+: s.toList.map f.fold) ∧
        (accepts id ((containing text).toList.map f.fold) (s.toList.map f.fold) ↔
          text.toList.map f.fold <:+: s.toList.map f.fold) := by
  intro toTheLetter anyCase ofField
  have compiled (op : Operator) : comparison p op value =
      (leaf p.name op value text).map (within p.nestedRoot?) := by rw [comparison, h]
  refine ⟨⟨compiled .contains, compiled .contains, compiled .endsWith, compiled .endsWith,
    compiled .like, compiled .notLike⟩, fun s => ⟨?_, ?_, fun f => ?_⟩⟩
  · rw [accepts_containing, List.map_id, List.map_id]
  · rw [accepts_ending, List.map_id, List.map_id]
  · rw [accepts_map]
    exact ⟨accepts_containing f.fold text s, accepts_containing f.fold text s⟩

open Pattern in
/-- A star, a question mark and a backslash at the end, in a nested field. -/
theorem patterns_match_text_of_literal_special :
    (Literal.string "A*?\\").text? = some "A*?\\" ∧
      compile (.comparison ⟨"tags.name"⟩ .notLike (.string "A*?\\")) =
        .ok (.nested "tags" (.no (.wildcard "tags.name" "*A\\*\\?\\\\*" true))) ∧
      accepts id "*A\\*\\?\\\\".toList "xA*?\\".toList ∧
      accepts Folding.lower.fold "*A\\*\\?\\\\*".toList "xa*?\\y".toList ∧
      ¬accepts id "*A\\*\\?\\\\*".toList "xA**\\y".toList := by
  obtain ⟨⟨-, -, -, -, -, hnot⟩, hmatch⟩ :=
    patterns_match_text_of_literal ⟨"tags.name"⟩ (.string "A*?\\") rfl
  refine ⟨rfl, hnot, ?_, ?_, ?_⟩
  · exact (hmatch "xA*?\\").2.1.2 ⟨['x'], rfl⟩
  · exact ((hmatch "xa*?\\y").2.2 .lower).1.2 ⟨['x'], ['y'], rfl⟩
  · exact fun h => absurd ((hmatch "xA**\\y").1.1 h) (by decide)

end FilterQuery.Query
