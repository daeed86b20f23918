/-! Wildcard patterns, in which `*` is any text, `?` any character, and a backslash makes the next
character stand for itself. -/

namespace FilterQuery.Query.Pattern

def escape (cs : List Char) : List Char :=
  cs.flatMap fun c => if c = '\\' ∨ c = '*' ∨ c = '?' then ['\\', c] else [c]

def containing (text : String) : String := .ofList ('*' :: escape text.toList ++ ['*'])

def ending (text : String) : String := .ofList ('*' :: escape text.toList)

end FilterQuery.Query.Pattern
