import FilterQuery.Proofs.Query.Numbers
import FilterQuery.Proofs.Text.Entries

/-! Comparisons with the values of a list, which are sent in order and as often as they are listed,
whatever blanks stand about them and whatever entries are blank. -/

namespace FilterQuery.Query

open Expression
open Text (Entry Pieces)

def anyOf (field : String) (values : List String) : Json :=
  .single "terms" (.single field (.array (values.map .string)))

def without (query : Json) : Json := .single "bool" (.single "must_not" (.array [query]))

/-- That the comparisons of a field with a list search for these values and for none of them. -/
def SearchesFor (p : Property) (list : Literal) (values : List String) : Prop :=
  (compile (.comparison p .oneOf list)).map Clause.toJson =
      .ok (underRoot p (anyOf p.name values)) ∧
    (compile (.comparison p .noneOf list)).map Clause.toJson =
      .ok (underRoot p (without (anyOf p.name values)))

def listText (pieces : List (List Char)) : String := .ofList (Text.joined pieces)

def quotedFilter (p : Property) (op : Operator) (text : String) : String :=
  p.name ++ " " ++ op.spelling ++ " '" ++ .ofList (doubleQuotes text.toList) ++ "'"

section
variable {p : Property} {l : Literal} {text : String} {values : List String}
  {pieces : List (List Char)}

theorem toJson_within (p : Property) (q : Clause) :
    (within p.nestedRoot? q).toJson = underRoot p q.toJson := by
  unfold within underRoot
  cases p.nestedRoot? <;> rfl

theorem searchesFor_of_text? (p : Property) (h : l.text? = some text) :
    SearchesFor p l (listed text) := by
  have hcompile (op : Operator) : compile (.comparison p op l) =
      (leaf p.name op l text).map (within p.nestedRoot?) := by
    rw [compile, comparison, h]
  constructor
  · rw [hcompile]
    exact congrArg Except.ok (toJson_within p _)
  · rw [hcompile]
    exact congrArg Except.ok (toJson_within p _)

theorem listed_listText (h : Pieces (values.map String.toList) pieces)
    (hvalues : ∀ v ∈ values, Entry v.toList) : listed (listText pieces) = values := by
  have hentries := h.entries_eq (List.forall_mem_map.2 hvalues)
  rw [listed, listText, String.toList_ofList, hentries, List.map_map]
  exact List.map_id'' (fun _ => String.ofList_toList) values

theorem searchesFor_listText (p : Property) (hvalues : ∀ v ∈ values, Entry v.toList)
    (h : Pieces (values.map String.toList) pieces) (hl : l.text? = some (listText pieces)) :
    SearchesFor p l values := by
  rw [← listed_listText h hvalues]
  exact searchesFor_of_text? p hl

theorem entry_of_mem_listed (text : String) : ∀ v ∈ listed text, Entry v.toList := by
  intro v hv
  obtain ⟨cs, hcs, rfl⟩ := List.mem_map.1 hv
  rw [String.toList_ofList]
  exact Text.entry_of_mem_entries hcs

theorem exists_pieces (text : String) : ∃ pieces, listText pieces = text ∧
    Pieces ((listed text).map String.toList) pieces := by
  obtain ⟨hjoined, hpieces⟩ := Text.pieces_splitOn text.toList
  refine ⟨_, by rw [listText, hjoined, String.ofList_toList], ?_⟩
  have hvalues : (listed text).map String.toList = Text.entries text.toList := by
    rw [listed, List.map_map]
    exact List.map_id'' (fun _ => String.toList_ofList) _
  rwa [hvalues]

/-- That a text lists these values, whatever blanks stand about them and whatever entries are
blank. -/
def Lists (values : List String) (text : String) : Prop :=
  (∀ v ∈ values, Entry v.toList) ∧
    ∃ pieces, listText pieces = text ∧ Pieces (values.map String.toList) pieces

theorem lists_iff : Lists values text ↔ listed text = values := by
  constructor
  · rintro ⟨hvalues, pieces, rfl, hpieces⟩
    exact listed_listText hpieces hvalues
  · rintro rfl
    exact ⟨entry_of_mem_listed text, exists_pieces text⟩

theorem quotedFilter_eq_print (p : Property) (op : Operator) (text : String) :
    quotedFilter p op text = (Node.comparison p op (.string text)).print := by
  refine String.toList_inj.1 ?_
  simp only [quotedFilter, Node.print, Node.chars, Literal.chars, String.toList_append,
    String.toList_ofList]
  simp

theorem parse_quotedFilter (hp : p.Named) (op : Operator) (text : String) :
    parse (quotedFilter p op text) = .ok (.comparison p op (.string text)) := by
  obtain ⟨ts, hprimary, htokens⟩ := (reads_comparison hp op (.string text)).tokenize
  have hdisjunction : Grammar.Disjunction ts (.comparison p op (.string text)) :=
    .mk (.one (.one (.plain hprimary)))
  rw [quotedFilter_eq_print]
  exact parse_eq_ok_iff.2 ⟨ts, htokens, hdisjunction, Nat.zero_le _⟩

end

/-- A list, however it is written, is searched for by its values. Of any literal but null the values
are trimmed entries, of which it is a spelling, and so are they with commas between them. -/
theorem lists_searched_for_by_value (p : Property) :
    (∀ values pieces, (∀ v ∈ values, Entry v.toList) →
      Pieces (values.map String.toList) pieces →
        (∀ list : Literal, list.text? = some (listText pieces) → SearchesFor p list values) ∧
        (p.Named → ∀ op, parse (quotedFilter p op (listText pieces)) =
          .ok (.comparison p op (.string (listText pieces))))) ∧
    ∀ list : Literal, list ≠ .null → ∃ values, (∀ v ∈ values, Entry v.toList) ∧
      (∃ pieces, list.text? = some (listText pieces) ∧
        Pieces (values.map String.toList) pieces) ∧
      SearchesFor p list values ∧
      SearchesFor p (.string (listText (values.map String.toList))) values := by
  refine ⟨fun values pieces hvalues hpieces => ⟨fun list hlist => ?_, fun hp op => ?_⟩,
    fun list hlist => ?_⟩
  · exact searchesFor_listText p hvalues hpieces hlist
  · exact parse_quotedFilter hp op _
  · obtain ⟨text, htext⟩ := Literal.exists_text?_eq_some hlist
    obtain ⟨pieces, rfl, hpieces⟩ := exists_pieces text
    have hvalues := entry_of_mem_listed (listText pieces)
    exact ⟨listed (listText pieces), hvalues, ⟨pieces, htext, hpieces⟩,
      searchesFor_of_text? p htext, searchesFor_listText p hvalues (Text.pieces_self _) rfl⟩

/-- A value twice, one with a quote and one with a blank inside, behind a tab and before a wide
blank, and entries that are blank; on a field of nested documents. A truth value is a list, too. -/
theorem lists_searched_for_by_value_repeated :
    let p : Property := ⟨"order.state"⟩
    let values := ["it's", "in transit", "it's"]
    let pieces := [['\t'] ++ "it's".toList, [' ', '\u3000'], "in transit\u3000".toList, [],
      "it's".toList]
    (∀ v ∈ values, Entry v.toList) ∧ Pieces (values.map String.toList) pieces ∧ p.Named ∧
      SearchesFor p (.string (listText pieces)) values ∧
      parse "order.state ?!= '\tit''s, \u3000,in transit\u3000,,it''s'" =
        .ok (.comparison p .noneOf (.string (listText pieces))) ∧
      ∃ values, (∀ v ∈ values, Entry v.toList) ∧ SearchesFor p (.boolean true) values ∧
        SearchesFor p (.string (listText (values.map String.toList))) values := by
  intro p values pieces
  have hkept : Text.kept pieces = values.map String.toList := by decide
  have hpieces : Pieces (values.map String.toList) pieces := hkept ▸ Text.pieces_kept pieces
  have hlisted : listed (listText pieces) = values := by decide
  have hvalues : ∀ v ∈ values, Entry v.toList := hlisted ▸ entry_of_mem_listed _
  have hp : p.Named := ⟨by decide, by decide⟩
  have hfilter : quotedFilter p .noneOf (listText pieces) =
      "order.state ?!= '\tit''s, \u3000,in transit\u3000,,it''s'" := by decide
  obtain ⟨hread, hconverse⟩ := lists_searched_for_by_value p
  obtain ⟨hsearches, hparse⟩ := hread values pieces hvalues hpieces
  obtain ⟨texts, htexts, -, htruth, hagain⟩ := hconverse (.boolean true) nofun
  exact ⟨hvalues, hpieces, hp, hsearches _ rfl, hfilter ▸ hparse hp .noneOf,
    texts, htexts, htruth, hagain⟩

end FilterQuery.Query
