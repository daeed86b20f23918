import FilterQuery.Json.Basic

/-! Records decoded from JSON. A record is an object, of which further fields are ignored, or an
array of its fields in order, of which the last may be missing. -/

namespace FilterQuery.Json

variable {α : Type}

def record? (names : List String) : Json → Option (Table Json)
  | .object fields => some fields
  | .array items => if items.length ≤ names.length then some (names.zip items) else none
  | _ => none

def required (decode : Json → Option α) (fields : Table Json) (name : String) : Option α :=
  (fields.get? name).bind decode

def defaulted (default : α) (decode : Json → Option α) (fields : Table Json) (name : String) :
    Option α :=
  (fields.get? name).elim (some default) decode

def nullable (decode : Json → Option α) : Json → Option (Option α)
  | .null => some none
  | v => (decode v).map some

def toBool? : Json → Option Bool
  | .bool b => some b
  | _ => none

def toInt64? : Json → Option Int
  | .number n => n.toInt?.filter (· < 2 ^ 63)
  | _ => none

def toUInt32? (v : Json) : Option UInt32 :=
  (v.toUInt64?.filter (·.toNat < 2 ^ 32)).map (·.toUInt32)

def listOf? (decode : Json → Option α) (v : Json) : Option (List α) :=
  v.toArray?.bind fun items => items.mapM decode

def tableOf? (decode : Json → Option α) (v : Json) : Option (Table α) :=
  v.toObject?.bind fun fields => fields.mapM fun (k, v) => (decode v).map (k, ·)

def ofTable (encode : α → Json) (t : Table α) : Json :=
  .object (t.map fun (k, v) => (k, encode v))

end FilterQuery.Json
