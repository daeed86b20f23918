import Mathlib
import FilterQuery.Proofs.Query.Assembly
import FilterQuery.Proofs.Search.Decoding
import FilterQuery.Proofs.Table

/-! The facets of a page. They answer the fields that were asked for, in order, as far as the
response has buckets for them, and count each bucket under the text of its key. -/

namespace FilterQuery.Search

open Expression Query Fallible

/-! ## What a response counts -/

def HasBuckets (body : Json) (field : String) (buckets : List Json) : Prop :=
  ∃ aggregations aggregation, body.get? "aggregations" = some aggregations ∧
    aggregations.get? field = some aggregation ∧ aggregation.get? "buckets" = some (.array buckets)

def Answered (body : Json) (field : String) : Prop := ∃ buckets, HasBuckets body field buckets

inductive KeyText : Json → String → Prop where
  | string (s : String) : KeyText (.string s) s
  | other {key : Json} : (∀ s, key ≠ .string s) → KeyText key key.compact

/-- The text that a bucket counts: that of its key as a string if it has one, or else of its key. -/
inductive BucketText (bucket : Json) : String → Prop where
  | asString {key : Json} {text : String} : bucket.get? "key_as_string" = some key →
      KeyText key text → BucketText bucket text
  | plain {key : Json} {text : String} : bucket.get? "key_as_string" = none →
      bucket.get? "key" = some key → KeyText key text → BucketText bucket text

def Keyed (bucket : Json) : Prop :=
  bucket.get? "key_as_string" ≠ none ∨ bucket.get? "key" ≠ none

instance : DecidablePred Keyed := fun _ => inferInstanceAs (Decidable (_ ∨ _))

/-- How often a bucket counts: zero unless it says so in a whole number from zero upwards. -/
def docCount (bucket : Json) : ℕ :=
  match bucket.get? "doc_count" with
  | some (.number (.int n _)) => n.toNat
  | _ => 0

def Distinct (buckets : List Json) : Prop :=
  buckets.Pairwise fun bucket other => ∀ text, BucketText bucket text → ¬BucketText other text

/-- The counts of buckets: a text has that of the last bucket which counts it. -/
structure CountsOf (buckets : List Json) (counts : Table UInt64) : Prop where
  ordered : counts.Ordered
  mem_keys_iff (text : String) :
    text ∈ counts.map Prod.fst ↔ ∃ bucket ∈ buckets, BucketText bucket text
  last {before behind : List Json} {bucket : Json} {text : String} :
    buckets = before ++ bucket :: behind → BucketText bucket text →
      (∀ later ∈ behind, ¬BucketText later text) →
      ∃ n, counts.get? text = some n ∧ n.toNat = docCount bucket
  sum : Distinct buckets →
    (counts.map fun entry => entry.2.toNat).sum = ((buckets.filter Keyed).map docCount).sum

/-! ## Buckets -/

section
variable {bucket : Json} {text : String} {count : UInt64}

theorem toNat_docCount (bucket : Json) :
    (((bucket.get? "doc_count").bind Json.toUInt64?).getD 0).toNat = docCount bucket := by
  unfold docCount
  split
  · next n fits hcount =>
    have hread : (Json.number (.int n fits)).toUInt64? =
        if 0 ≤ n then some (.ofNat n.toNat) else none := rfl
    rw [hcount, Option.bind_some, hread]
    split
    · exact UInt64.toNat_ofNat_of_lt' (show n.toNat < 2 ^ 64 by omega)
    · next hneg => exact (Int.toNat_of_nonpos (by omega)).symm
  · next hother =>
    cases hcount : bucket.get? "doc_count" with
    | none => rfl
    | some v =>
      match v with
      | .number (.int n fits) => exact absurd hcount (hother n fits)
      | .number (.float _) | .null | .bool _ | .string _ | .array _ | .object _ => rfl

theorem keyText_iff {key : Json} : KeyText key text ↔
    (match key with
      | .string s => s
      | key => key.compact) = text := by
  constructor
  · rintro (_ | hother)
    · rfl
    · split
      · next s => exact absurd rfl (hother s)
      · rfl
  · rintro rfl
    cases key with
    | string s => exact .string s
    | null | bool | number | array | object => exact .other nofun

theorem bucketText_iff : BucketText bucket text ↔
    ∃ key, (bucket.get? "key_as_string" <|> bucket.get? "key") = some key ∧ KeyText key text := by
  constructor
  · rintro (⟨hkey, htext⟩ | ⟨hnone, hkey, htext⟩)
    · exact ⟨_, by rw [hkey]; rfl, htext⟩
    · exact ⟨_, by rw [hnone, hkey]; rfl, htext⟩
  · rintro ⟨key, hkey, htext⟩
    cases hstring : bucket.get? "key_as_string" with
    | none =>
      rw [hstring] at hkey
      exact .plain hstring hkey htext
    | some found =>
      rw [hstring] at hkey
      obtain rfl : found = key := Option.some.inj hkey
      exact .asString hstring htext

theorem bucket?_eq_some_iff : Response.bucket? bucket = some (text, count) ↔
    BucketText bucket text ∧ count.toNat = docCount bucket := by
  rw [bucketText_iff, ← toNat_docCount, UInt64.toNat_inj]
  unfold Response.bucket?
  rw [Option.bind_eq_bind, Option.bind_eq_some_iff]
  simp only [keyText_iff, Option.some.injEq, Prod.mk.injEq]
  constructor
  · rintro ⟨key, hkey, htext, rfl⟩
    exact ⟨⟨key, hkey, htext⟩, rfl⟩
  · rintro ⟨⟨key, hkey, htext⟩, rfl⟩
    exact ⟨key, hkey, htext, rfl⟩

theorem BucketText.exists_bucket? (h : BucketText bucket text) :
    ∃ count, Response.bucket? bucket = some (text, count) ∧ count.toNat = docCount bucket := by
  have hcount := toNat_docCount bucket
  exact ⟨_, bucket?_eq_some_iff.2 ⟨h, hcount⟩, hcount⟩

theorem bucket?_eq_none_iff : Response.bucket? bucket = none ↔ ¬Keyed bucket := by
  unfold Response.bucket? Keyed
  cases bucket.get? "key_as_string" <;> cases bucket.get? "key" <;> simp

end

section
variable {buckets : List Json} {text : String}

theorem mem_texts_iff : text ∈ (buckets.filterMap Response.bucket?).map Prod.fst ↔
    ∃ bucket ∈ buckets, BucketText bucket text := by
  rw [List.mem_map]
  constructor
  · rintro ⟨⟨text, count⟩, hentry, rfl⟩
    obtain ⟨bucket, hmem, hbucket⟩ := List.mem_filterMap.1 hentry
    exact ⟨bucket, hmem, (bucket?_eq_some_iff.1 hbucket).1⟩
  · rintro ⟨bucket, hmem, htext⟩
    obtain ⟨count, hbucket, -⟩ := htext.exists_bucket?
    exact ⟨(text, count), List.mem_filterMap.2 ⟨bucket, hmem, hbucket⟩, rfl⟩

theorem distinct_iff_nodup :
    Distinct buckets ↔ ((buckets.filterMap Response.bucket?).map Prod.fst).Nodup := by
  rw [List.Nodup, List.pairwise_map, List.pairwise_filterMap]
  refine List.Pairwise.iff fun {bucket other} => ⟨fun h => ?_, fun h text htext htext' => ?_⟩
  · intro entry hentry entry' hentry' hsame
    have htext := (bucket?_eq_some_iff.1 hentry).1
    have htext' := (bucket?_eq_some_iff.1 hentry').1
    exact h entry.1 htext (hsame ▸ htext')
  · obtain ⟨count, hbucket, -⟩ := htext.exists_bucket?
    obtain ⟨count', hother, -⟩ := htext'.exists_bucket?
    exact h _ hbucket _ hother rfl

theorem sum_counts (buckets : List Json) :
    ((buckets.filterMap Response.bucket?).map fun entry => entry.2.toNat).sum =
      ((buckets.filter Keyed).map docCount).sum := by
  induction buckets with
  | nil => rfl
  | cons bucket buckets ih =>
    cases hbucket : Response.bucket? bucket with
    | none =>
      have hkey := bucket?_eq_none_iff.1 hbucket
      rw [List.filterMap_cons_none hbucket, ih, List.filter_cons_of_neg (by simpa using hkey)]
    | some entry =>
      have hkey : Keyed bucket := by
        by_contra hnone
        cases hbucket.symm.trans (bucket?_eq_none_iff.2 hnone)
      have hcount := (bucket?_eq_some_iff.1 hbucket).2
      rw [List.filterMap_cons_some hbucket, List.filter_cons_of_pos (by simpa using hkey),
        List.map_cons, List.map_cons, List.sum_cons, List.sum_cons, ih, hcount]

theorem countsOf_ofList (buckets : List Json) :
    CountsOf buckets (.ofList (buckets.filterMap Response.bucket?)) where
  ordered := Table.ordered_ofList _
  mem_keys_iff text := by
    rw [← mem_texts_iff, ← not_iff_not, ← Table.get?_eq_none_iff, Table.get?_ofList_eq_none_iff]
  last := by
    rintro before behind bucket text rfl htext hlater
    obtain ⟨count, hbucket, hcount⟩ := htext.exists_bucket?
    refine ⟨count, ?_, hcount⟩
    have hbehind : (behind.filterMap Response.bucket?).reverse.lookup text = none := by
      rw [← Table.get?, Table.get?_eq_none_iff, List.map_reverse, List.mem_reverse, mem_texts_iff]
      push Not
      exact hlater
    rw [Table.get?_ofList, List.filterMap_append, List.filterMap_cons_some hbucket,
      List.reverse_append, List.reverse_cons, List.lookup_append, List.lookup_append, hbehind,
      List.lookup_cons_self]
    rfl
  sum hdistinct := by
    have hperm := Table.ofList_perm (distinct_iff_nodup.1 hdistinct)
    rw [(hperm.map _).sum_eq, sum_counts]

end

/-! ## Facets -/

section
variable {body : Json} {field : String}

theorem buckets?_eq_some_iff {counts : List (String × UInt64)} :
    Response.buckets? ⟨body⟩ field = some counts ↔
      ∃ buckets, HasBuckets body field buckets ∧ buckets.filterMap Response.bucket? = counts := by
  unfold Response.buckets?
  simp only [Option.bind_eq_bind, Option.bind_eq_some_iff, Option.some.injEq]
  constructor
  · rintro ⟨aggregations, haggs, aggregation, hagg, list, hlist, buckets, harray, rfl⟩
    match list with
    | .array items =>
      obtain rfl : items = buckets := Option.some.inj harray
      exact ⟨items, ⟨aggregations, aggregation, haggs, hagg, hlist⟩, rfl⟩
    | .null | .bool _ | .number _ | .string _ | .object _ => cases harray
  · rintro ⟨buckets, ⟨aggregations, aggregation, haggs, hagg, hlist⟩, rfl⟩
    exact ⟨aggregations, haggs, aggregation, hagg, _, hlist, buckets, rfl, rfl⟩

theorem isSome_buckets? : (Response.buckets? ⟨body⟩ field).isSome ↔ Answered body field := by
  rw [Option.isSome_iff_exists]
  simp only [buckets?_eq_some_iff]
  exact ⟨fun ⟨_, buckets, h, _⟩ => ⟨buckets, h⟩, fun ⟨buckets, h⟩ => ⟨_, buckets, h, rfl⟩⟩

instance : DecidablePred (Answered body) := fun _ => decidable_of_iff _ isSome_buckets?

def facetsOf (body : Json) (fields : List String) : List Facet :=
  fields.filterMap fun f => (Response.buckets? ⟨body⟩ f).map (Facet.ofCounts f)

theorem map_field_facetsOf (body : Json) (fields : List String) :
    (facetsOf body fields).map Facet.field = fields.filter (Answered body) := by
  unfold facetsOf
  rw [List.map_filterMap, ← List.filterMap_eq_filter]
  refine List.filterMap_congr fun field _ => ?_
  cases hbuckets : Response.buckets? ⟨body⟩ field with
  | none =>
    have hno : ¬Answered body field := by rw [← isSome_buckets?, hbuckets]; exact nofun
    simp [Option.guard, hno]
  | some counts =>
    have hyes : Answered body field := by rw [← isSome_buckets?, hbuckets]; rfl
    simp [Option.guard, hyes, Facet.ofCounts]

theorem counts_of_mem_facetsOf {fields : List String} {facet : Facet}
    (h : facet ∈ facetsOf body fields) : facet.label = facet.field ∧
      ∃ buckets, HasBuckets body facet.field buckets ∧ CountsOf buckets facet.counts := by
  obtain ⟨field, -, hfacet⟩ := List.mem_filterMap.1 h
  obtain ⟨counts, hcounts, rfl⟩ := Option.map_eq_some_iff.1 hfacet
  obtain ⟨buckets, hbuckets, rfl⟩ := buckets?_eq_some_iff.1 hcounts
  exact ⟨rfl, buckets, hbuckets, countsOf_ofList buckets⟩

end

section
variable {α : Type} {body : Json} {c : Criteria}

theorem exists_page_of_not_lacks (mapper : Document → Option α) (h : ∀ lack, ¬Lacks body lack) :
    ∃ page, resultOf c mapper (.ok ⟨body⟩) = .ok page ∧
      page.facets = facetsOf body c.facetFields := by
  rcases lacks_or_hits body with ⟨lack, hlacks⟩ | ⟨_, _, _, hfields, -, hfound, hdocs⟩
  · exact absurd hlacks (h lack)
  · obtain ⟨page, hpage, -⟩ := exists_page_of_hits (c := c) mapper hfields hfound hdocs
    refine ⟨page, mapError_eq_ok_iff.2 hpage, ?_⟩
    unfold Response.page at hpage
    obtain ⟨total, -, hpage⟩ := bind_eq_ok_iff.1 hpage
    obtain ⟨hits, -, hpage⟩ := bind_eq_ok_iff.1 hpage
    cases hpage
    rfl

end

theorem asked_of_mem {c : Criteria} {filter : Option Node} {request : Request} {field : String}
    (h : buildRequest c filter = .ok request) (hmem : field ∈ c.facetFields) :
    (request.body.get? "aggs").bind (Json.get? field) ≠ none := by
  obtain ⟨query, -, rfl⟩ := map_eq_ok_iff.1 h
  have haggs := Request.get?_assemble c query "aggs"
  rw [haggs, Request.part, Request.get?_aggregations?, if_pos hmem]
  exact Option.some_ne_none _

end FilterQuery.Search
