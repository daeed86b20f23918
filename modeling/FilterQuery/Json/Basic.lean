import FilterQuery.Json.Number
import FilterQuery.Table

/-! JSON values, whose objects list each key once and in the order of code points. -/

namespace FilterQuery

inductive Json where
  | null
  | bool (value : Bool)
  | number (value : Number)
  | string (value : String)
  | array (items : List Json)
  | object (fields : List (String × Json))
  deriving Inhabited

namespace Json

def ofFields (entries : List (String × Json)) : Json := .object (Table.ofList entries)

def single (key : String) (value : Json) : Json := .object [(key, value)]

def strings (items : List String) : Json := .array (items.map .string)

def ofNat32 (n : UInt32) : Json := .number (.ofNat32 n)

def ofNat64 (n : UInt64) : Json := .number (.ofNat64 n)

def ofString? : Option String → Json
  | some s => .string s
  | none => .null

def get? (key : String) : Json → Option Json
  | .object fields => Table.get? fields key
  | _ => none

def toObject? : Json → Option (Table Json)
  | .object fields => some fields
  | _ => none

def toArray? : Json → Option (List Json)
  | .array items => some items
  | _ => none

def toString? : Json → Option String
  | .string s => some s
  | _ => none

def toUInt64? : Json → Option UInt64
  | .number n => n.toUInt64?
  | _ => none

end Json

end FilterQuery
