import FilterQuery.Json.Basic

/-! JSON text, on one line without blanks or indented by two spaces a level. -/

namespace FilterQuery.Json

def hexDigit (n : Nat) : Char := (Nat.toDigits 16 n).headD '0'

def escape (c : Char) : List Char :=
  match c with
  | '"' => ['\\', '"']
  | '\\' => ['\\', '\\']
  | '\x08' => ['\\', 'b']
  | '\x0c' => ['\\', 'f']
  | '\n' => ['\\', 'n']
  | '\r' => ['\\', 'r']
  | '\t' => ['\\', 't']
  | c =>
    if c.toNat < 0x20 then
      ['\\', 'u', '0', '0', hexDigit (c.toNat / 16), hexDigit (c.toNat % 16)]
    else [c]

def quoted (s : String) : List Char := '"' :: s.toList.flatMap escape ++ ['"']

mutual

def chars : Json → List Char
  | .null => "null".toList
  | .bool b => (toString b).toList
  | .number n => n.chars
  | .string s => quoted s
  | .array items => '[' :: [','].intercalate (itemTexts items) ++ [']']
  | .object fields => '{' :: [','].intercalate (fieldTexts fields) ++ ['}']

def itemTexts : List Json → List (List Char)
  | [] => []
  | v :: vs => v.chars :: itemTexts vs

def fieldTexts : List (String × Json) → List (List Char)
  | [] => []
  | (k, v) :: fs => (quoted k ++ ':' :: v.chars) :: fieldTexts fs

end

def compact (v : Json) : String := .ofList v.chars

def newline (level : Nat) : List Char := '\n' :: List.replicate (2 * level) ' '

def block (level : Nat) (opening closing : Char) (items : List (List Char)) : List Char :=
  if items.isEmpty then [opening, closing]
  else
    opening :: (newline (level + 1) ++ (',' :: newline (level + 1)).intercalate items
      ++ newline level ++ [closing])

mutual

def charsAt (level : Nat) : Json → List Char
  | .array items => block level '[' ']' (itemTextsAt (level + 1) items)
  | .object fields => block level '{' '}' (fieldTextsAt (level + 1) fields)
  | v => v.chars

def itemTextsAt (level : Nat) : List Json → List (List Char)
  | [] => []
  | v :: vs => v.charsAt level :: itemTextsAt level vs

def fieldTextsAt (level : Nat) : List (String × Json) → List (List Char)
  | [] => []
  | (k, v) :: fs => (quoted k ++ ':' :: ' ' :: v.charsAt level) :: fieldTextsAt level fs

end

def pretty (v : Json) : String := .ofList (v.charsAt 0)

end FilterQuery.Json
