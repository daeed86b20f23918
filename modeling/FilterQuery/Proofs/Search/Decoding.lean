import Mathlib
import FilterQuery.Proofs.Fallible
import FilterQuery.Proofs.Json
import FilterQuery.Proofs.Search.Calls

/-! The pages made of responses. A response is refused for what it lacks, the first thing first, and
of any other the page has the documents of its first hits, as far as the mapper takes them. -/

namespace FilterQuery

def Page.withoutItems {α : Type} (p : Page α) : Page Unit :=
  ⟨[], p.pagination, p.totalCount, p.facets, p.actions⟩

namespace Search

open Expression Query Fallible

/-! ## What a response says -/

inductive Stores (hit : Json) : Document → Prop where
  | missing : hit.get? "_source" = none → Stores hit []
  | null : hit.get? "_source" = some .null → Stores hit []
  | object {fields : Document} : hit.get? "_source" = some (.object fields) → Stores hit fields

/-- The document of a hit: what is stored, with the identifier of the hit if that is a text and
nothing is stored in its place. -/
inductive DocumentOf (hit : Json) : Document → Prop where
  | stored {fields : Document} : Stores hit fields →
      (∀ id, hit.get? "_id" ≠ some (.string id)) ∨ fields.get? "id" ≠ none → DocumentOf hit fields
  | identified {fields doc : Document} {id : String} : Stores hit fields →
      hit.get? "_id" = some (.string id) → fields.get? "id" = none →
      doc.Perm (("id", .string id) :: fields) → (fields.Ordered → doc.Ordered) → DocumentOf hit doc

/-- The number of matches: as it is stated, bare or as a value, or else that of the hits. -/
inductive Counts (fields : Table Json) (hits : List Json) : UInt64 → Prop where
  | number {n : UInt64} : fields.get? "total" = some (.ofNat64 n) → Counts fields hits n
  | value {n : UInt64} : (fields.get? "total").bind (Json.get? "value") = some (.ofNat64 n) →
      Counts fields hits n
  | hits : (∀ n, fields.get? "total" ≠ some (.ofNat64 n)) →
      (∀ n, (fields.get? "total").bind (Json.get? "value") ≠ some (.ofNat64 n)) →
      Counts fields hits (.ofNat hits.length)

structure Spoils (hit source : Json) : Prop where
  stored : hit.get? "_source" = some source
  ne_null : source ≠ .null
  ne_object (fields : Document) : source ≠ .object fields

/-- What is missing first for a page to be made of a response. -/
inductive Lacks (body : Json) : Malformed → Prop where
  | noSection : (∀ fields, body.get? "hits" ≠ some (.object fields)) → Lacks body .noHitsSection
  | noArray {fields : Table Json} : body.get? "hits" = some (.object fields) →
      (∀ hits, fields.get? "hits" ≠ some (.array hits)) → Lacks body .noHitsArray
  | noObject {fields : Table Json} {before behind : List Json} {hit source : Json} :
      body.get? "hits" = some (.object fields) →
      fields.get? "hits" = some (.array (before ++ hit :: behind)) →
      (∀ other ∈ before, ∃ stored, Stores other stored) → Spoils hit source →
      Lacks body (.sourceNotObject source)

/-! ## Numbers and hits -/

theorem statedTotal?_eq_some_iff {total : Option Json} {n : UInt64} :
    total.bind Response.statedTotal? = some n ↔
      total = some (.ofNat64 n) ∨ total.bind (Json.get? "value") = some (.ofNat64 n) := by
  constructor
  · intro h
    match total with
    | some (.number x) =>
      exact .inl (congrArg some (Json.toUInt64?_eq_some_iff.1 h))
    | some (.object fields) =>
      have hstated : (Table.get? fields "value").bind Json.toUInt64? = some n := h
      obtain ⟨v, hv, hn⟩ := Option.bind_eq_some_iff.1 hstated
      obtain rfl := Json.toUInt64?_eq_some_iff.1 hn
      exact .inr hv
    | none | some .null | some (.bool _) | some (.string _) | some (.array _) => cases h
  · rintro (rfl | h)
    · exact Json.toUInt64?_ofNat64 n
    · match total with
      | some (.object fields) =>
        have hvalue : Table.get? fields "value" = some (.ofNat64 n) := h
        show (Table.get? fields "value").bind Json.toUInt64? = some n
        rw [hvalue]
        exact Json.toUInt64?_ofNat64 n
      | none | some .null | some (.bool _) | some (.number _) | some (.string _)
      | some (.array _) => cases h

section
variable {hit source : Json} {fields : Document}

theorem stores_or_spoils (hit : Json) :
    (∃ fields, Stores hit fields) ∨ ∃ source, Spoils hit source := by
  match h : hit.get? "_source" with
  | none => exact .inl ⟨[], .missing h⟩
  | some .null => exact .inl ⟨[], .null h⟩
  | some (.object fields) => exact .inl ⟨fields, .object h⟩
  | some (.bool _) | some (.number _) | some (.string _) | some (.array _) =>
    exact .inr ⟨_, h, nofun, nofun⟩

theorem Spoils.not_stores (h : Spoils hit source) : ¬Stores hit fields := by
  intro hstores
  cases hstores with
  | missing hnone => cases h.stored.symm.trans hnone
  | null hsource => exact h.ne_null (Option.some.inj (h.stored.symm.trans hsource))
  | object hsource => exact h.ne_object _ (Option.some.inj (h.stored.symm.trans hsource))

theorem Stores.ofJson_eq (h : Stores hit fields) :
    Hit.ofJson hit = .ok ⟨(hit.get? "_id").bind Json.toString?, fields⟩ := by
  unfold Hit.ofJson
  cases h with
  | missing h | null h | object h => rw [h]

theorem Spoils.ofJson_eq (h : Spoils hit source) :
    Hit.ofJson hit = .error (.sourceNotObject source) := by
  unfold Hit.ofJson
  rw [h.stored]
  cases source with
  | null => exact absurd rfl h.ne_null
  | object fields => exact absurd rfl (h.ne_object fields)
  | bool | number | string | array => rfl

theorem Stores.documentOf (h : Stores hit fields) :
    DocumentOf hit (Hit.document ⟨(hit.get? "_id").bind Json.toString?, fields⟩) := by
  match hid : hit.get? "_id" with
  | some (.string id) =>
    show DocumentOf hit (fields.insertNew "id" (.string id))
    unfold Table.insertNew
    split
    · next hsome =>
      refine .stored h (.inr ?_)
      exact Option.isSome_iff_ne_none.1 hsome
    · next hnone =>
      have hid' : fields.get? "id" = none := by simpa using hnone
      exact .identified h hid hid' (Table.insert_perm hid' _) fun ho => ho.insert _ _
  | none | some .null | some (.bool _) | some (.number _) | some (.array _) | some (.object _) =>
    refine .stored h (.inl ?_)
    rw [hid]
    exact nofun

end

theorem mapM_ofJson_eq_ok {hits : List Json} (h : ∀ hit ∈ hits, ∃ fields, Stores hit fields) :
    ∃ found, hits.mapM Hit.ofJson = .ok found ∧
      List.Forall₂ DocumentOf hits (found.map Hit.document) := by
  induction hits with
  | nil => exact ⟨[], rfl, .nil⟩
  | cons hit hits ih =>
    obtain ⟨fields, hfields⟩ := h hit List.mem_cons_self
    obtain ⟨found, hfound, hdocs⟩ := ih fun other hmem => h other (List.mem_cons_of_mem _ hmem)
    refine ⟨_ :: found, ?_, .cons hfields.documentOf hdocs⟩
    rw [List.mapM_cons, hfields.ofJson_eq, hfound]
    rfl

theorem mapM_ofJson_eq_error {before behind : List Json} {hit : Json} {lack : Malformed}
    (hbefore : ∀ other ∈ before, ∃ fields, Stores other fields) (h : Hit.ofJson hit = .error lack) :
    (before ++ hit :: behind).mapM Hit.ofJson = .error lack := by
  obtain ⟨found, hfound, -⟩ := mapM_ofJson_eq_ok hbefore
  rw [List.mapM_append, hfound, List.mapM_cons, h]
  rfl

theorem all_store_or_first_spoils (hits : List Json) :
    (∀ hit ∈ hits, ∃ fields, Stores hit fields) ∨ ∃ before hit behind source,
      hits = before ++ hit :: behind ∧ (∀ other ∈ before, ∃ fields, Stores other fields) ∧
        Spoils hit source := by
  induction hits with
  | nil => exact .inl nofun
  | cons hit hits ih =>
    rcases stores_or_spoils hit with hhit | ⟨source, hsource⟩
    · rcases ih with hall | ⟨before, other, behind, source, rfl, hbefore, hother⟩
      · exact .inl (List.forall_mem_cons.2 ⟨hhit, hall⟩)
      · exact .inr ⟨hit :: before, other, behind, source, rfl,
          List.forall_mem_cons.2 ⟨hhit, hbefore⟩, hother⟩
    · exact .inr ⟨[], hit, hits, source, rfl, nofun, hsource⟩

/-! ## Responses -/

section
variable {body : Json} {fields : Table Json} {hits : List Json} {lack : Malformed}

theorem hitsSection_eq_ok (h : body.get? "hits" = some (.object fields)) :
    Response.hitsSection ⟨body⟩ = .ok fields := by
  unfold Response.hitsSection
  rw [h]
  rfl

theorem hitsSection_eq_error (h : ∀ fields, body.get? "hits" ≠ some (.object fields)) :
    Response.hitsSection ⟨body⟩ = .error .noHitsSection := by
  unfold Response.hitsSection
  match hsection : body.get? "hits" with
  | some (.object fields) => exact absurd hsection (h fields)
  | none | some .null | some (.bool _) | some (.number _) | some (.string _) | some (.array _) =>
    rfl

theorem hits_eq_of_section (h : body.get? "hits" = some (.object fields)) :
    Response.hits ⟨body⟩ =
      match (fields.get? "hits").bind Json.toArray? with
      | some hits => hits.mapM Hit.ofJson
      | none => .error .noHitsArray := by
  unfold Response.hits
  rw [hitsSection_eq_ok h]
  rfl

theorem hits_eq_mapM (h : body.get? "hits" = some (.object fields))
    (hhits : fields.get? "hits" = some (.array hits)) :
    Response.hits ⟨body⟩ = hits.mapM Hit.ofJson := by
  rw [hits_eq_of_section h, hhits]
  rfl

theorem Lacks.hits_eq (h : Lacks body lack) : Response.hits ⟨body⟩ = .error lack := by
  cases h with
  | noSection hfields =>
    unfold Response.hits
    rw [hitsSection_eq_error hfields]
    rfl
  | @noArray fields hfields hhits =>
    rw [hits_eq_of_section hfields]
    match hstated : Table.get? fields "hits" with
    | some (.array hits) => exact absurd hstated (hhits hits)
    | none | some .null | some (.bool _) | some (.number _) | some (.string _)
    | some (.object _) => rfl
  | noObject hfields hhits hbefore hspoils =>
    rw [hits_eq_mapM hfields hhits]
    exact mapM_ofJson_eq_error hbefore hspoils.ofJson_eq

theorem lacks_or_hits (body : Json) : (∃ lack, Lacks body lack) ∨
    ∃ (fields : Table Json) (hits : List Json) (found : List Hit),
    body.get? "hits" = some (.object fields) ∧ fields.get? "hits" = some (.array hits) ∧
      Response.hits ⟨body⟩ = .ok found ∧ List.Forall₂ DocumentOf hits (found.map Hit.document) := by
  by_cases hsection : ∃ fields : Table Json, body.get? "hits" = some (.object fields)
  · obtain ⟨fields, hfields⟩ := hsection
    by_cases harray : ∃ hits, fields.get? "hits" = some (.array hits)
    · obtain ⟨hits, hhits⟩ := harray
      rcases all_store_or_first_spoils hits with hall | ⟨_, _, _, _, rfl, hbefore, hspoils⟩
      · obtain ⟨found, hfound, hdocs⟩ := mapM_ofJson_eq_ok hall
        exact .inr ⟨fields, hits, found, hfields, hhits,
          (hits_eq_mapM hfields hhits).trans hfound, hdocs⟩
      · exact .inl ⟨_, .noObject hfields hhits hbefore hspoils⟩
    · exact .inl ⟨_, .noArray hfields (not_exists.1 harray)⟩
  · exact .inl ⟨_, .noSection (not_exists.1 hsection)⟩

theorem total_eq_of_section (h : body.get? "hits" = some (.object fields)) :
    Response.total ⟨body⟩ =
      match (fields.get? "total").bind Response.statedTotal? with
      | some n => .ok n
      | none => (Response.hits ⟨body⟩).map fun found => .ofNat found.length := by
  unfold Response.total
  rw [hitsSection_eq_ok h]
  rfl

theorem exists_total_of_hits {found : List Hit} (h : body.get? "hits" = some (.object fields))
    (hfound : Response.hits ⟨body⟩ = .ok found) (hlength : found.length = hits.length) :
    ∃ n, Response.total ⟨body⟩ = .ok n ∧ Counts fields hits n := by
  rw [total_eq_of_section h]
  match hstated : (fields.get? "total").bind Response.statedTotal? with
  | some n =>
    refine ⟨n, rfl, ?_⟩
    rcases statedTotal?_eq_some_iff.1 hstated with hnumber | hvalue
    · exact .number hnumber
    · exact .value hvalue
  | none =>
    have hnone : ∀ n, (fields.get? "total").bind Response.statedTotal? ≠ some n := by
      simp [hstated]
    refine ⟨.ofNat hits.length, ?_, .hits ?_ ?_⟩
    · rw [hfound, ← hlength]
      rfl
    · exact fun n hn => hnone n (statedTotal?_eq_some_iff.2 (.inl hn))
    · exact fun n hn => hnone n (statedTotal?_eq_some_iff.2 (.inr hn))

theorem total_eq_error (h : Response.total ⟨body⟩ = .error lack) :
    Response.hits ⟨body⟩ = .error lack := by
  by_cases hsection : ∃ fields : Table Json, body.get? "hits" = some (.object fields)
  · obtain ⟨fields, hfields⟩ := hsection
    rw [total_eq_of_section hfields] at h
    split at h
    · cases h
    · cases hhits : Response.hits ⟨body⟩ with
      | error other =>
        rw [hhits] at h
        exact congrArg _ (Except.error.inj h)
      | ok found =>
        rw [hhits] at h
        cases h
  · unfold Response.total at h
    unfold Response.hits
    rw [hitsSection_eq_error (not_exists.1 hsection)] at h ⊢
    cases h
    rfl

end

section
variable {α β : Type} {body : Json} {c : Criteria}

theorem page_eq_of_hits_eq_error {mapper : Document → Option α} {lack : Malformed}
    (h : Response.hits ⟨body⟩ = .error lack) : Response.page ⟨body⟩ c mapper = .error lack := by
  unfold Response.page
  cases htotal : Response.total ⟨body⟩ with
  | error other =>
    have hsame := (total_eq_error htotal).symm.trans h
    exact congrArg _ (Except.error.inj hsame)
  | ok n =>
    rw [h]
    rfl

theorem exists_page_of_hits (mapper : Document → Option α) {fields : Table Json} {hits : List Json}
    {found : List Hit} (hfields : body.get? "hits" = some (.object fields))
    (hfound : Response.hits ⟨body⟩ = .ok found)
    (hdocs : List.Forall₂ DocumentOf hits (found.map Hit.document)) :
    ∃ page, Response.page ⟨body⟩ c mapper = .ok page ∧
      page.items = ((found.map Hit.document).take c.pagination.limit.toNat).filterMap mapper ∧
      Counts fields hits page.totalCount ∧ page.pagination = c.pagination := by
  have hlength : found.length = hits.length := by simpa using hdocs.length_eq.symm
  obtain ⟨n, htotal, hcounts⟩ := exists_total_of_hits hfields hfound hlength
  unfold Response.page
  rw [htotal, hfound]
  refine ⟨_, rfl, ?_, hcounts, rfl⟩
  rw [← List.map_take, List.filterMap_map]
  rfl

theorem page_eq_error_iff {mapper : Document → Option α} {lack : Malformed} :
    Response.page ⟨body⟩ c mapper = .error lack ↔ Lacks body lack := by
  constructor
  · intro h
    rcases lacks_or_hits body with ⟨other, hlacks⟩ | ⟨_, _, found, hfields, -, hfound, hdocs⟩
    · have hsame := (page_eq_of_hits_eq_error hlacks.hits_eq).symm.trans h
      exact Except.error.inj hsame ▸ hlacks
    · obtain ⟨page, hpage, -⟩ := exists_page_of_hits (c := c) mapper hfields hfound hdocs
      cases hpage.symm.trans h
  · intro h
    exact page_eq_of_hits_eq_error h.hits_eq

theorem resultOf_withoutItems (mapper : Document → Option α) (mapper' : Document → Option β) :
    (resultOf c mapper (.ok ⟨body⟩)).map Page.withoutItems =
      (resultOf c mapper' (.ok ⟨body⟩)).map Page.withoutItems := by
  simp only [resultOf, Response.page]
  cases Response.total ⟨body⟩ with
  | error lack => rfl
  | ok n =>
    cases Response.hits ⟨body⟩ with
    | error lack => rfl
    | ok found => rfl

end

theorem exists_lacks_iff {body : Json} : (∃ lack, Lacks body lack) ↔
    (∀ fields, body.get? "hits" ≠ some (.object fields)) ∨
      ∃ fields : Table Json, body.get? "hits" = some (.object fields) ∧
        ((∀ hits, fields.get? "hits" ≠ some (.array hits)) ∨
          ∃ hits, fields.get? "hits" = some (.array hits) ∧
            ∃ hit ∈ hits, ∃ source, Spoils hit source) := by
  constructor
  · rintro ⟨lack, h⟩
    cases h with
    | noSection hfields => exact .inl hfields
    | noArray hfields hhits => exact .inr ⟨_, hfields, .inl hhits⟩
    | noObject hfields hhits _ hspoils =>
      exact .inr ⟨_, hfields, .inr ⟨_, hhits, _, List.mem_append_right _ List.mem_cons_self,
        _, hspoils⟩⟩
  · rintro (hfields | ⟨fields, hfields, hhits | ⟨hits, hhits, hit, hmem, source, hspoils⟩⟩)
    · exact ⟨_, .noSection hfields⟩
    · exact ⟨_, .noArray hfields hhits⟩
    · rcases all_store_or_first_spoils hits with hall | ⟨_, _, _, _, rfl, hbefore, hfirst⟩
      · obtain ⟨stored, hstored⟩ := hall hit hmem
        exact absurd hstored hspoils.not_stores
      · exact ⟨_, .noObject hfields hhits hbefore hfirst⟩

theorem resultOf_eq_malformed_iff {α : Type} {body : Json} {c : Criteria}
    {mapper : Document → Option α} {lack : Malformed} :
    resultOf c mapper (.ok ⟨body⟩) = .error (.malformedResponse lack) ↔ Lacks body lack := by
  unfold resultOf
  rw [mapError_eq_error_iff]
  constructor
  · rintro ⟨other, hpage, hsame⟩
    exact page_eq_error_iff.1 (SearchError.malformedResponse.inj hsame ▸ hpage)
  · intro hlacks
    exact ⟨lack, page_eq_error_iff.2 hlacks, rfl⟩

/-! ## Searches -/

section
variable {m : Type → Type} [Monad m] [LawfulMonad m] {α : Type}

theorem exists_request (c : Criteria) {filter : Option Node}
    (h : ∀ n ∈ filter, ∃ q, compile n = .ok q) :
    ∃ request, buildRequest c filter = .ok request := by
  unfold buildRequest compileFilter
  cases filter with
  | none => exact ⟨_, rfl⟩
  | some n =>
    obtain ⟨q, hq⟩ := h n rfl
    simp only [hq]
    exact ⟨_, rfl⟩

theorem searchParsed_of_request (client : Client m) (index : String) {c : Criteria}
    {filter : Option Node} {request : Request} (mapper : Document → Option α)
    (h : buildRequest c filter = .ok request) :
    client.searchParsed index c filter mapper =
      resultOf c mapper <$> client.search index request.body := by
  unfold Client.searchParsed
  rw [h, map_eq_pure_bind]
  refine bind_congr fun answer => ?_
  cases answer <;> rfl

end

/-- Where a filter compiles, a search sends its request and returns what it makes of the response:
an error that names what the response lacks first, or a page. The page has what the mapper takes of
the documents of the first hits, as many as the page may have, and all but these items is the same
for every mapper. -/
theorem page_of_response {m : Type → Type} [Monad m] [LawfulMonad m] {α β : Type}
    (client : Client m) (index : String) (c : Criteria) {filter : Option Node}
    (hfilter : ∀ n ∈ filter, ∃ q, compile n = .ok q) (mapper : Document → Option α)
    (mapper' : Document → Option β) :
    (∃ request, buildRequest c filter = .ok request ∧
      client.searchParsed index c filter mapper =
        resultOf c mapper <$> client.search index request.body) ∧
    ∀ body : Json,
      (∀ lack, resultOf c mapper (.ok ⟨body⟩) = .error (.malformedResponse lack) ↔
        Lacks body lack) ∧
      ((∃ lack, Lacks body lack) ↔
        (∀ fields, body.get? "hits" ≠ some (.object fields)) ∨
          ∃ fields : Table Json, body.get? "hits" = some (.object fields) ∧
            ((∀ hits, fields.get? "hits" ≠ some (.array hits)) ∨
              ∃ hits, fields.get? "hits" = some (.array hits) ∧
                ∃ hit ∈ hits, ∃ source, Spoils hit source)) ∧
      ((∀ lack, ¬Lacks body lack) →
        ∃ (fields : Table Json) (hits : List Json) (docs : List Document) (page : Page α),
          body.get? "hits" = some (.object fields) ∧ fields.get? "hits" = some (.array hits) ∧
          List.Forall₂ DocumentOf hits docs ∧ resultOf c mapper (.ok ⟨body⟩) = .ok page ∧
          page.items = (docs.take c.pagination.limit.toNat).filterMap mapper ∧
          Counts fields hits page.totalCount ∧ page.pagination = c.pagination ∧
          page.items.length ≤ page.pagination.size.toNat) ∧
      (resultOf c mapper (.ok ⟨body⟩)).map Page.withoutItems =
        (resultOf c mapper' (.ok ⟨body⟩)).map Page.withoutItems := by
  refine ⟨?_, fun body => ⟨fun lack => resultOf_eq_malformed_iff, exists_lacks_iff, ?_,
    resultOf_withoutItems mapper mapper'⟩⟩
  · obtain ⟨request, hrequest⟩ := exists_request c hfilter
    exact ⟨request, hrequest, searchParsed_of_request client index mapper hrequest⟩
  · intro hnone
    rcases lacks_or_hits body with ⟨lack, hlacks⟩ | ⟨fields, hits, _, hfields, hhits, hfound, hdocs⟩
    · exact absurd hlacks (hnone lack)
    · obtain ⟨page, hpage, hitems, hcounts, hpagination⟩ :=
        exists_page_of_hits (c := c) mapper hfields hfound hdocs
      have hresult : resultOf c mapper (.ok ⟨body⟩) = .ok page := mapError_eq_ok_iff.2 hpage
      have hsize : page.items.length ≤ page.pagination.size.toNat := by
        rw [hitems, hpagination]
        exact (List.length_filterMap_le _ _).trans (List.length_take_le _ _)
      exact ⟨fields, hits, _, page, hfields, hhits, hdocs, hresult, hitems, hcounts, hpagination,
        hsize⟩

/-- A page of one has the first of two hits, with an identifier, and counts both. A second hit that
stores a number spoils the page. -/
theorem page_of_response_of_two :
    let c : Criteria := { pagination := ⟨0, 1⟩ }
    let first : Json := .object [("_id", .string "a"), ("_source", .object [("n", .bool true)])]
    let body (second : Json) : Json :=
      .object [("hits", .object [("hits", .array [first, second])])]
    let run (second : Json) := (Backend.client.searchParsed "people" c none
      (some : Document → Option Document)).run { reply := .ok ⟨body second⟩ }
    (∀ n ∈ (none : Option Node), ∃ q, compile n = .ok q) ∧
      (∃ page, (run (.object [])).1 = .ok page ∧
        page.items = [[("id", .string "a"), ("n", .bool true)]] ∧ page.totalCount = 2 ∧
        page.items.length ≤ page.pagination.size.toNat) ∧
      (run (.object [("_source", .ofNat64 7)])).1 =
        .error (.malformedResponse (.sourceNotObject (.ofNat64 7))) := by
  intro c first body run
  have hfilter : ∀ n ∈ (none : Option Node), ∃ q, compile n = .ok q := nofun
  obtain ⟨⟨request, -, hrun⟩, hbodies⟩ :=
    page_of_response Backend.client "people" c hfilter some (some : Document → Option Document)
  have hresult (second : Json) : (run second).1 = resultOf c some (.ok ⟨body second⟩) := by
    show ((Backend.client.searchParsed "people" c none some).run _).1 = _
    rw [hrun]
    rfl
  refine ⟨hfilter, ?_, ?_⟩
  · have hpage : resultOf c some (.ok ⟨body (.object [])⟩) =
        .ok ⟨[[("id", .string "a"), ("n", .bool true)]], ⟨0, 1⟩, 2, [], []⟩ := rfl
    have hlacks (lack : Malformed) : ¬Lacks (body (.object [])) lack := fun h =>
      nomatch hpage.symm.trans (((hbodies _).1 lack).2 h)
    obtain ⟨_, _, _, page, -, -, -, hok, -, -, -, hsize⟩ := (hbodies _).2.2.1 hlacks
    obtain rfl := Except.ok.inj (hpage.symm.trans hok)
    exact ⟨_, (hresult _).trans hpage, rfl, rfl, hsize⟩
  · have hstores : ∀ other ∈ [first], ∃ stored, Stores other stored :=
      List.forall_mem_singleton.2 ⟨_, .object rfl⟩
    let second : Json := .object [("_source", .ofNat64 7)]
    have hhits : Table.get? [("hits", Json.array [first, second])] "hits" =
        some (.array ([first] ++ second :: [])) := rfl
    have hlacks : Lacks (body second) (.sourceNotObject (.ofNat64 7)) :=
      .noObject rfl hhits hstores ⟨rfl, nofun, nofun⟩
    exact (hresult _).trans (((hbodies _).1 _).2 hlacks)

end Search

end FilterQuery
