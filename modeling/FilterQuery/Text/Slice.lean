import FilterQuery.Text.Bytes

/-! The bytes of a text, and the parts of it between two of them. -/

namespace FilterQuery.Text

variable {s : String}

def byteAt? (s : String) (i : Nat) : Option Char := s.toByteArray.data[i]?.map Char.ofUInt8

/-- The part of `s` from its byte at `i` up to the one at `j`, unless one of the two places is inside
a character. -/
def slice? (s : String) (i j : Nat) : Option String :=
  if h : i ≤ j ∧ String.Pos.Raw.IsValid s ⟨i⟩ ∧ String.Pos.Raw.IsValid s ⟨j⟩ then
    some (s.extract (s.pos ⟨i⟩ h.2.1) (s.pos ⟨j⟩ h.2.2))
  else none

theorem byteLength_toList (s : String) : byteLength s.toList = s.utf8ByteSize := by
  rw [← utf8ByteSize_ofList, String.ofList_toList]

theorem byteLength_eq_zero_iff {cs : List Char} : byteLength cs = 0 ↔ cs = [] := by
  cases cs with
  | nil => exact ⟨fun _ => rfl, fun _ => rfl⟩
  | cons c cs =>
    have := c.utf8Size_pos
    rw [byteLength_cons]
    exact ⟨fun h => by omega, nofun⟩

/-! ## Places between characters -/

theorem isValid_iff_exists_append {i : Nat} :
    String.Pos.Raw.IsValid s ⟨i⟩ ↔ ∃ pre post, s.toList = pre ++ post ∧ byteLength pre = i := by
  rw [String.Pos.Raw.isValid_iff_exists_append]
  constructor
  · rintro ⟨pre, post, rfl, hi⟩
    refine ⟨pre.toList, post.toList, String.toList_append, ?_⟩
    rw [byteLength_toList, ← String.byteIdx_rawEndPos, ← hi]
  · rintro ⟨pre, post, hs, rfl⟩
    refine ⟨.ofList pre, .ofList post, ?_, ?_⟩
    · rw [← String.ofList_append, ← hs, String.ofList_toList]
    · rw [String.Pos.Raw.ext_iff, String.byteIdx_rawEndPos, utf8ByteSize_ofList]

theorem slice?_of_append {pre mid post : List Char} (h : s.toList = pre ++ mid ++ post) :
    slice? s (byteLength pre) (byteLength (pre ++ mid)) = some (.ofList mid) := by
  have hsize (cs : List Char) : byteLength cs = cs.utf8Encode.size := by
    rw [← String.toByteArray_ofList, String.size_toByteArray, utf8ByteSize_ofList]
  have hbytes : s.toByteArray = pre.utf8Encode ++ (mid.utf8Encode ++ post.utf8Encode) := by
    rw [← List.utf8Encode_append, ← List.utf8Encode_append, ← List.append_assoc, ← h,
      ← String.toByteArray_ofList, String.ofList_toList]
  have hle : byteLength pre ≤ byteLength (pre ++ mid) := by
    rw [byteLength_append]
    exact Nat.le_add_right ..
  have hstart : String.Pos.Raw.IsValid s ⟨byteLength pre⟩ :=
    isValid_iff_exists_append.2 ⟨pre, mid ++ post, h.trans (List.append_assoc ..), rfl⟩
  have hstop : String.Pos.Raw.IsValid s ⟨byteLength (pre ++ mid)⟩ :=
    isValid_iff_exists_append.2 ⟨pre ++ mid, post, h, rfl⟩
  rw [slice?, dif_pos ⟨hle, hstart, hstop⟩, Option.some.injEq, ← String.toByteArray_inj,
    String.toByteArray_extract, String.toByteArray_ofList, hbytes]
  calc (pre.utf8Encode ++ (mid.utf8Encode ++ post.utf8Encode)).extract (byteLength pre)
        (byteLength (pre ++ mid))
    _ = (pre.utf8Encode ++ (mid.utf8Encode ++ post.utf8Encode)).extract (byteLength pre + 0)
        (byteLength pre + byteLength mid) := by rw [byteLength_append, Nat.add_zero]
    _ = (mid.utf8Encode ++ post.utf8Encode).extract 0 (byteLength mid) :=
      ByteArray.extract_append_size_add' (hsize pre)
    _ = mid.utf8Encode := ByteArray.extract_append_eq_left (hsize mid)

theorem slice?_eq_some_iff {i j : Nat} {t : String} :
    slice? s i j = some t ↔ ∃ pre post, s.toList = pre ++ t.toList ++ post ∧ byteLength pre = i ∧
      i + t.utf8ByteSize = j := by
  constructor
  · intro h
    have hplaces : i ≤ j ∧ String.Pos.Raw.IsValid s ⟨i⟩ ∧ String.Pos.Raw.IsValid s ⟨j⟩ := by
      by_cases hplaces : i ≤ j ∧ String.Pos.Raw.IsValid s ⟨i⟩ ∧ String.Pos.Raw.IsValid s ⟨j⟩
      · exact hplaces
      · rw [slice?, dif_neg hplaces] at h
        cases h
    obtain ⟨hle, hi, hj⟩ := hplaces
    obtain ⟨pre, behind, hpre, rfl⟩ := isValid_iff_exists_append.1 hi
    obtain ⟨before, post, hpost, rfl⟩ := isValid_iff_exists_append.1 hj
    -- Of the two places the first is in front of the second, since it is so in bytes.
    obtain ⟨mid, rfl⟩ : pre <+: before := by
      rcases List.prefix_or_prefix_of_prefix (hpre ▸ List.prefix_append pre behind)
        (hpost ▸ List.prefix_append before post) with h | ⟨more, rfl⟩
      · exact h
      · rw [byteLength_append] at hle
        have hmore : more = [] := byteLength_eq_zero_iff.1 (by omega)
        exact ⟨[], by rw [hmore, List.append_nil, List.append_nil]⟩
    obtain rfl : String.ofList mid = t := Option.some.inj ((slice?_of_append hpost).symm.trans h)
    refine ⟨pre, post, ?_, rfl, ?_⟩
    · rw [String.toList_ofList, hpost]
    · rw [utf8ByteSize_ofList, byteLength_append]
  · rintro ⟨pre, post, h, rfl, rfl⟩
    have hslice := slice?_of_append h
    rwa [byteLength_append, byteLength_toList, String.ofList_toList] at hslice

theorem slice?_of_split {pre mid post : List Char} (h : s.toList = pre ++ (mid ++ post)) :
    slice? s (byteLength pre) (byteLength pre + byteLength mid) = some (.ofList mid) := by
  rw [← byteLength_append]
  exact slice?_of_append (h.trans (List.append_assoc ..).symm)

theorem slices_of_append {pre post : List Char} (h : s.toList = pre ++ post) :
    slice? s 0 (byteLength pre) = some (.ofList pre) ∧
      slice? s (byteLength pre) s.utf8ByteSize = some (.ofList post) := by
  constructor
  · have hslice := @slice?_of_append s [] pre post h
    rwa [byteLength_nil, List.nil_append] at hslice
  · rw [← byteLength_toList, h]
    exact slice?_of_append (h.trans (List.append_nil _).symm)

theorem le_of_slice? {i j : Nat} {t : String} (h : slice? s i j = some t) : i ≤ j := by
  obtain ⟨pre, post, -, -, rfl⟩ := slice?_eq_some_iff.1 h
  exact Nat.le_add_right ..

theorem isValid_of_slice? {i j : Nat} {t : String} (h : slice? s i j = some t) :
    String.Pos.Raw.IsValid s ⟨i⟩ ∧ String.Pos.Raw.IsValid s ⟨j⟩ := by
  obtain ⟨pre, post, hs, rfl, rfl⟩ := slice?_eq_some_iff.1 h
  refine ⟨isValid_iff_exists_append.2 ⟨pre, t.toList ++ post, ?_, rfl⟩,
    isValid_iff_exists_append.2 ⟨pre ++ t.toList, post, hs, ?_⟩⟩
  · rw [hs, List.append_assoc]
  · rw [byteLength_append, byteLength_toList]

/-! ## Bytes and characters -/

theorem byteLength_eq_length_flatMap (cs : List Char) :
    byteLength cs = (cs.flatMap String.utf8EncodeChar).length := by
  induction cs with
  | nil => rfl
  | cons c cs ih =>
    rw [byteLength_cons, List.flatMap_cons, List.length_append, String.length_utf8EncodeChar, ih]

theorem byteAt?_append {pre post : List Char} (h : s.toList = pre ++ post) (k : Nat) :
    byteAt? s (byteLength pre + k) = (post.flatMap String.utf8EncodeChar)[k]?.map Char.ofUInt8 := by
  have hbytes : s.toByteArray.data.toList = (pre ++ post).flatMap String.utf8EncodeChar := by
    rw [← h, ← String.ofList_toList (s := s), String.toByteArray_ofList, String.toList_ofList,
      List.utf8Encode, List.data_toByteArray, List.toList_toArray]
  rw [byteAt?, ← Array.getElem?_toList, hbytes, List.flatMap_append,
    byteLength_eq_length_flatMap, List.getElem?_append_right (Nat.le_add_right ..),
    Nat.add_sub_cancel_left]

theorem byteAt?_end {cs : List Char} (h : s.toList = cs) : byteAt? s (byteLength cs) = none := by
  have := byteAt?_append (h.trans (List.append_nil cs).symm) 0
  rwa [Nat.add_zero] at this

theorem map_utf8EncodeChar_of_ascii {c : Char} (hc : c.toNat < 128) :
    (String.utf8EncodeChar c).map Char.ofUInt8 = [c] := by
  have hle : c.val.toNat ≤ 127 := Nat.le_of_lt_succ hc
  have hsmall : c.val.toNat % 256 = c.val.toNat := Nat.mod_eq_of_lt (by omega)
  rw [String.utf8EncodeChar, if_pos hle, List.map_singleton, List.cons_eq_cons]
  refine ⟨Char.ext (UInt32.toNat_inj.1 ?_), rfl⟩
  show ((c.val.toUInt8).toUInt32).toNat = c.val.toNat
  rwa [UInt8.toNat_toUInt32, UInt32.toNat_toUInt8]

theorem code_of_mem_map_utf8EncodeChar {c b : Char} (hc : 128 ≤ c.toNat)
    (hb : b ∈ (String.utf8EncodeChar c).map Char.ofUInt8) : 128 ≤ b.toNat := by
  obtain ⟨byte, hbyte, rfl⟩ := List.mem_map.1 hb
  have hcode : (Char.ofUInt8 byte).toNat = byte.toNat := byte.toNat_toUInt32
  have hmarked {n m base : Nat} (hm : 0 < m) (hlow : 128 ≤ base) (hhigh : base + m ≤ 256) :
      128 ≤ (UInt8.ofNat (n % m + base)).toNat := by
    have hn := Nat.mod_lt n hm
    rw [UInt8.toNat_ofNat_of_lt' (by show _ < 256; omega)]
    omega
  have hle : ¬c.val.toNat ≤ 127 := Nat.not_le_of_lt hc
  rw [String.utf8EncodeChar, if_neg hle] at hbyte
  rw [hcode]
  -- The byte that leads and those that continue have marks that are at least 128.
  split at hbyte
  · simp only [List.mem_cons, List.not_mem_nil, or_false] at hbyte
    rcases hbyte with rfl | rfl <;> exact hmarked (by decide) (by decide) (by decide)
  split at hbyte
  · simp only [List.mem_cons, List.not_mem_nil, or_false] at hbyte
    rcases hbyte with rfl | rfl | rfl <;> exact hmarked (by decide) (by decide) (by decide)
  · simp only [List.mem_cons, List.not_mem_nil, or_false] at hbyte
    rcases hbyte with rfl | rfl | rfl | rfl <;> exact hmarked (by decide) (by decide) (by decide)

theorem byteAt?_of_ascii {pre post : List Char} {c : Char} (h : s.toList = pre ++ c :: post)
    (hc : c.toNat < 128) : byteAt? s (byteLength pre) = some c := by
  have hbyte := byteAt?_append h 0
  rw [Nat.add_zero, ← List.getElem?_map, List.flatMap_cons, List.map_append,
    map_utf8EncodeChar_of_ascii hc] at hbyte
  exact hbyte

theorem code_of_byteAt? {pre post : List Char} {c : Char} {k : Nat}
    (h : s.toList = pre ++ c :: post) (hc : 128 ≤ c.toNat) (hk : k < c.utf8Size) :
    ∃ b, byteAt? s (byteLength pre + k) = some b ∧ 128 ≤ b.toNat := by
  have hlength : k < ((String.utf8EncodeChar c).map Char.ofUInt8).length := by
    rwa [List.length_map, String.length_utf8EncodeChar]
  refine ⟨_, ?_, code_of_mem_map_utf8EncodeChar hc (List.getElem_mem hlength)⟩
  rw [byteAt?_append h, ← List.getElem?_map, List.flatMap_cons, List.map_append,
    List.getElem?_append_left hlength, List.getElem?_eq_getElem hlength]

end FilterQuery.Text
