import FilterQuery.Json.Basic

/-! JSON values read from text. A number is whole where its text has neither point nor exponent and
64 bits hold it; minus zero and every other number are binary64. -/

namespace FilterQuery.Json.Reader

def skipBlanks (cs : List Char) : List Char :=
  cs.dropWhile fun c => c = ' ' ∨ c = '\t' ∨ c = '\n' ∨ c = '\r'

def hexValue? (c : Char) : Option Nat :=
  if c.isDigit then some (c.toNat - '0'.toNat)
  else if 'a' ≤ c ∧ c ≤ 'f' then some (c.toNat - 'a'.toNat + 10)
  else if 'A' ≤ c ∧ c ≤ 'F' then some (c.toNat - 'A'.toNat + 10)
  else none

def unit? (a b c d : Char) : Option Nat := do
  let high := (← hexValue? a) * 16 + (← hexValue? b)
  let low := (← hexValue? c) * 16 + (← hexValue? d)
  some (high * 256 + low)

def simpleEscape? : Char → Option Char
  | '"' => some '"'
  | '\\' => some '\\'
  | '/' => some '/'
  | 'b' => some '\x08'
  | 'f' => some '\x0c'
  | 'n' => some '\n'
  | 'r' => some '\r'
  | 't' => some '\t'
  | _ => none

def charOfUnit? (n : Nat) : Option Char :=
  if h : n.isValidChar then some (Char.ofNatAux n h) else none

def stringBody : List Char → Option (List Char × List Char)
  | [] => none
  | '"' :: cs => some ([], cs)
  | '\\' :: 'u' :: a :: b :: c :: d :: '\\' :: 'u' :: e :: f :: g :: h :: cs => do
    let high ← unit? a b c d
    let low ← unit? e f g h
    if 0xD800 ≤ high ∧ high < 0xDC00 ∧ 0xDC00 ≤ low ∧ low < 0xE000 then
      let char ← charOfUnit? (0x10000 + (high - 0xD800) * 0x400 + (low - 0xDC00))
      let (text, rest) ← stringBody cs
      some (char :: text, rest)
    else
      let char ← charOfUnit? high
      let (text, rest) ← stringBody ('\\' :: 'u' :: e :: f :: g :: h :: cs)
      some (char :: text, rest)
  | '\\' :: 'u' :: a :: b :: c :: d :: cs => do
    let char ← charOfUnit? (← unit? a b c d)
    let (text, rest) ← stringBody cs
    some (char :: text, rest)
  | '\\' :: c :: cs => do
    let char ← simpleEscape? c
    let (text, rest) ← stringBody cs
    some (char :: text, rest)
  | c :: cs => do
    if c.toNat < 0x20 then none
    let (text, rest) ← stringBody cs
    some (c :: text, rest)

def wholeRun (cs : List Char) : Option (List Char × List Char) :=
  match Decimal.digitRun cs with
  | ([], _) | ('0' :: _ :: _, _) => none
  | run => some run

def numberChar (c : Char) : Bool := c.isDigit || "+-.eE".toList.contains c

def number? (text : List Char) : Option Number := do
  let unsigned := if text.head? = some '-' then text.drop 1 else text
  let (whole, rest) ← wholeRun unsigned
  if rest.isEmpty && !(text = ['-', '0']) then
    match (Decimal.readInt? text).bind Number.ofInt? with
    | some n => some n
    | none => (Decimal.Binary64.ofText? text).map .float
  else
    let (fraction, exponent) := Decimal.fractionRun rest
    if rest.head? = some '.' && fraction.isEmpty then none
    else if whole.isEmpty || exponent.head? = some '.' then none
    else (Decimal.Binary64.ofText? text).map .float

mutual

/-- A value at the front of the text, and what follows it; `fuel` bounds the values read. -/
def value : (fuel : Nat) → List Char → Option (Json × List Char)
  | 0, _ => none
  | fuel + 1, cs =>
    match skipBlanks cs with
    | 'n' :: 'u' :: 'l' :: 'l' :: cs => some (.null, cs)
    | 't' :: 'r' :: 'u' :: 'e' :: cs => some (.bool true, cs)
    | 'f' :: 'a' :: 'l' :: 's' :: 'e' :: cs => some (.bool false, cs)
    | '"' :: cs => (stringBody cs).map fun (text, rest) => (.string (.ofList text), rest)
    | '[' :: cs =>
      match skipBlanks cs with
      | ']' :: cs => some (.array [], cs)
      | cs => (items fuel cs).map fun (vs, rest) => (.array vs, rest)
    | '{' :: cs =>
      match skipBlanks cs with
      | '}' :: cs => some (.object [], cs)
      | cs => (fields fuel cs).map fun (fs, rest) => (.ofFields fs, rest)
    | cs => (number? (cs.takeWhile numberChar)).map fun n => (.number n, cs.dropWhile numberChar)

def items : (fuel : Nat) → List Char → Option (List Json × List Char)
  | 0, _ => none
  | fuel + 1, cs => do
    let (v, cs) ← value fuel cs
    match skipBlanks cs with
    | ',' :: cs => (items fuel cs).map fun (vs, rest) => (v :: vs, rest)
    | ']' :: cs => some ([v], cs)
    | _ => none

def fields : (fuel : Nat) → List Char → Option (List (String × Json) × List Char)
  | 0, _ => none
  | fuel + 1, cs =>
    match skipBlanks cs with
    | '"' :: cs => do
      let (key, cs) ← stringBody cs
      match skipBlanks cs with
      | ':' :: cs =>
        let (v, cs) ← value fuel cs
        match skipBlanks cs with
        | ',' :: cs => (fields fuel cs).map fun (fs, rest) => ((.ofList key, v) :: fs, rest)
        | '}' :: cs => some ([(.ofList key, v)], cs)
        | _ => none
      | _ => none
    | _ => none

end

end FilterQuery.Json.Reader

namespace FilterQuery.Json

/-- The value that the whole text holds. Each value takes a character at least, and two steps. -/
def read? (text : String) : Option Json :=
  match Reader.value (2 * text.length + 2) text.toList with
  | some (v, rest) => if (Reader.skipBlanks rest).isEmpty then some v else none
  | none => none

end FilterQuery.Json
