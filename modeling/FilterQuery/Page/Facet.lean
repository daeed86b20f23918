import FilterQuery.Json.Decode

/-! How often each value of a field occurs. -/

namespace FilterQuery

structure Facet where
  field : String
  label : String
  counts : Table UInt64
  deriving DecidableEq, Repr

namespace Facet

/-- The facet of a field under its own name; of two counts for one value the later. -/
def ofCounts (field : String) (counts : List (String × UInt64)) : Facet :=
  ⟨field, field, .ofList counts⟩

def toJson (f : Facet) : Json :=
  .object [("field_name", .string f.field), ("label", .string f.label),
    ("value_counts", .ofTable .ofNat64 f.counts)]

def ofJson? (v : Json) : Option Facet := do
  let fields ← v.record? ["field_name", "label", "value_counts"]
  let field ← Json.required Json.toString? fields "field_name"
  let label ← Json.required Json.toString? fields "label"
  let counts ← Json.required (Json.tableOf? Json.toUInt64?) fields "value_counts"
  some { field, label, counts }

end Facet

end FilterQuery
