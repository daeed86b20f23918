import FilterQuery.Json.Basic

/-! Literal values of a filter, and their forms as filter text, as plain text and as JSON. -/

namespace FilterQuery.Expression

open Decimal

inductive Literal where
  | null
  | string (value : String)
  | number (value : Number)
  | boolean (value : Bool)
  deriving DecidableEq

def doubleQuotes (cs : List Char) : List Char :=
  cs.flatMap fun c => if c = '\'' then ['\'', '\''] else [c]

def singleQuotes : List Char → List Char
  | '\'' :: '\'' :: cs => '\'' :: singleQuotes cs
  | c :: cs => c :: singleQuotes cs
  | [] => []

theorem singleQuotes_cons_of_ne {c : Char} (h : c ≠ '\'') (cs : List Char) :
    singleQuotes (c :: cs) = c :: singleQuotes cs := by
  rw [singleQuotes.eq_2]
  intro r hc
  exact absurd hc h

theorem singleQuotes_doubleQuotes (cs : List Char) : singleQuotes (doubleQuotes cs) = cs := by
  induction cs with
  | nil => rfl
  | cons c cs ih =>
    by_cases h : c = '\''
    · subst h
      simpa [doubleQuotes, singleQuotes] using ih
    · simpa [doubleQuotes, h, singleQuotes_cons_of_ne h] using ih

/-- A float without an exponent, which reads back as a float because of its point. -/
def floatText (x : Binary64) : List Char :=
  signed x.negative (Numeral.ofScaled (Binary64.shortest .up x.magnitude)).plain

def numberText : Number → List Char
  | .int v _ => Number.intText v
  | .float x => floatText x

namespace Literal

def chars : Literal → List Char
  | null => "null".toList
  | string s => '\'' :: doubleQuotes s.toList ++ ['\'']
  | number n => numberText n
  | boolean b => (toString b).toList

def print (l : Literal) : String := .ofList l.chars

/-- The text that patterns and lists are made of; null has none. -/
def text? : Literal → Option String
  | null => none
  | string s => some s
  | number n => some n.text
  | boolean b => some (toString b)

theorem text?_eq_none_iff {l : Literal} : l.text? = none ↔ l = null := by
  cases l <;> simp [text?]

theorem exists_text?_eq_some {l : Literal} (h : l ≠ null) : ∃ text, l.text? = some text :=
  Option.ne_none_iff_exists'.1 (mt text?_eq_none_iff.1 h)

def toJson : Literal → Json
  | null => .null
  | string s => .string s
  | number n => .number n
  | boolean b => .bool b

section
variable {l : Literal}

theorem toJson_eq_null_iff : l.toJson = .null ↔ l = null := by
  cases l <;> simp [toJson]

theorem toJson_eq_string_iff {s : String} : l.toJson = .string s ↔ l = string s := by
  cases l <;> simp [toJson]

theorem toJson_eq_number_iff {n : Number} : l.toJson = .number n ↔ l = number n := by
  cases l <;> simp [toJson]

theorem toJson_eq_bool_iff {b : Bool} : l.toJson = .bool b ↔ l = boolean b := by
  cases l <;> simp [toJson]

theorem toJson_injective {m : Literal} (h : l.toJson = m.toJson) : l = m := by
  cases m with
  | null => exact toJson_eq_null_iff.1 h
  | string s => exact toJson_eq_string_iff.1 h
  | number n => exact toJson_eq_number_iff.1 h
  | boolean b => exact toJson_eq_bool_iff.1 h

end

end Literal

end FilterQuery.Expression
