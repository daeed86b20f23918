import FilterQuery.Expression.Property
import FilterQuery.Json.Decode
import FilterQuery.Text.Blank

/-! The fields that results are sorted by. -/

namespace FilterQuery

inductive ValueType where
  | long
  | string
  | double
  | float
  deriving DecidableEq, Repr

namespace ValueType

def name : ValueType → String
  | long => "long"
  | string => "string"
  | double => "double"
  | float => "float"

def ofName? (name : String) : Option ValueType :=
  [long, string, double, float].find? (·.name = name)

def unmappedType : ValueType → String
  | long => "long"
  | string => "keyword"
  | double => "double"
  | float => "float"

/-- A name, or an object with the name for its one key and null under it. -/
def ofJson? : Json → Option ValueType
  | .string s => ofName? s
  | .object [(s, .null)] => ofName? s
  | _ => none

end ValueType

structure SortKey where
  field : String
  valueType : ValueType := .string
  descending : Bool := false
  deriving DecidableEq, Repr

namespace SortKey

/-- A field and, after blanks, a direction, which is ascending unless it is `desc`. -/
def read? (clause : List Char) : Option SortKey :=
  match Text.words clause with
  | [] => none
  | field :: rest =>
    some { field := .ofList field,
           descending := rest.head?.any fun d => Text.foldCase (.ofList d) = "desc" }

def readList (list : String) : List SortKey := (list.toList.splitOn ',').filterMap read?

def toJson (s : SortKey) : Json :=
  .object [("field_name", .string s.field), ("reverse", .bool s.descending),
    ("value_type", .string s.valueType.name)]

def ofJson? (v : Json) : Option SortKey := do
  let fields ← v.record? ["field_name", "value_type", "reverse"]
  let field ← Json.required Json.toString? fields "field_name"
  let valueType ← Json.defaulted .string ValueType.ofJson? fields "value_type"
  let descending ← Json.defaulted false Json.toBool? fields "reverse"
  some { field, valueType, descending }

/-- The clause that sorts by this key; a dotted field is looked for in nested documents. -/
def clause (s : SortKey) : Json :=
  let nested := match (Expression.Property.mk s.field).nestedRoot? with
    | some path => [("nested", .single "path" (.string path))]
    | none => []
  .single s.field (.object (nested ++
    [("order", .string (if s.descending then "desc" else "asc")),
     ("unmapped_type", .string s.valueType.unmappedType)]))

end SortKey

end FilterQuery
