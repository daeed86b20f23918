import FilterQuery.Expression.Operator
import FilterQuery.Expression.Token

/-! The tokens of a filter: the longest lexeme at each place, with blanks between them skipped. -/

namespace FilterQuery.Expression

inductive LexReason where
  | unterminatedString
  | unexpectedCharacter (char : Char)
  deriving DecidableEq, Repr

structure LexError where
  offset : Nat
  reason : LexReason
  deriving DecidableEq, Repr

namespace Lexeme

def isWordStart (c : Char) : Bool := c.isAlpha || c = '_'

def isWordChar (c : Char) : Bool := c.isAlphanum || c = '_' || c = '.'

/-- The words with a meaning of their own, in lower case. -/
def reserved : List (String × TokenKind) :=
  [("and", .and), ("or", .or), ("not", .not), ("null", .nullLiteral),
   ("true", .booleanLiteral), ("false", .booleanLiteral),
   ("contains", .functionName), ("startswith", .functionName), ("endswith", .functionName),
   ("eq", .comparisonOperator), ("ne", .comparisonOperator), ("gt", .comparisonOperator),
   ("ge", .comparisonOperator), ("lt", .comparisonOperator), ("le", .comparisonOperator)]

/-- That a word has a kind of its own. Connectives, values and functions have words, and so have the
operators that are not written by their symbol alone. -/
inductive Reserved : String → TokenKind → Prop where
  | and : Reserved "and" .and
  | or : Reserved "or" .or
  | not : Reserved "not" .not
  | null : Reserved "null" .nullLiteral
  | boolean (b : Bool) : Reserved (toString b) .booleanLiteral
  | function (f : FunctionName) : Reserved f.spelling .functionName
  | comparison (op : Operator) {symbol : String} : op.symbol? = some symbol →
      symbol ≠ op.spelling → Reserved op.spelling .comparisonOperator

theorem mem_reserved_iff {word : String} {kind : TokenKind} :
    (word, kind) ∈ reserved ↔ Reserved word kind := by
  constructor
  · intro h
    simp only [reserved, List.mem_cons, Prod.mk.injEq, List.not_mem_nil, or_false] at h
    rcases h with ⟨rfl, rfl⟩ | ⟨rfl, rfl⟩ | ⟨rfl, rfl⟩ | ⟨rfl, rfl⟩ | ⟨rfl, rfl⟩ | ⟨rfl, rfl⟩ |
      ⟨rfl, rfl⟩ | ⟨rfl, rfl⟩ | ⟨rfl, rfl⟩ | ⟨rfl, rfl⟩ | ⟨rfl, rfl⟩ | ⟨rfl, rfl⟩ | ⟨rfl, rfl⟩ |
      ⟨rfl, rfl⟩ | ⟨rfl, rfl⟩
    · exact .and
    · exact .or
    · exact .not
    · exact .null
    · exact .boolean true
    · exact .boolean false
    · exact .function .contains
    · exact .function .startsWith
    · exact .function .endsWith
    · exact .comparison .eq rfl (by decide)
    · exact .comparison .ne rfl (by decide)
    · exact .comparison .gt rfl (by decide)
    · exact .comparison .ge rfl (by decide)
    · exact .comparison .lt rfl (by decide)
    · exact .comparison .le rfl (by decide)
  · intro h
    cases h with
    | and | or | not | null => decide
    | boolean b => cases b <;> decide
    | function f => cases f <;> decide
    | @comparison op symbol hsymbol hne =>
      cases op with
      | contains | startsWith | endsWith => cases hsymbol
      | like | notLike | oneOf | noneOf => exact absurd (Option.some.inj hsymbol).symm hne
      | eq | ne | gt | ge | lt | le => decide

def wordKind (word : String) : TokenKind :=
  (reserved.lookup (Text.foldCase word)).getD .identifier

/-- The symbolic operators, none before a longer one that it begins. -/
def symbols : List (List Char) :=
  ["?!=", "!=", "!~", ">=", "<=", "?=", "=", ">", "<", "~"].map String.toList

theorem mem_symbols_iff {s : String} :
    s.toList ∈ symbols ↔ ∃ op : Operator, op.symbol? = some s := by
  constructor
  · intro h
    obtain ⟨t, ht, hs⟩ := List.mem_map.1 h
    obtain rfl := String.toList_inj.1 hs
    simp only [List.mem_cons, List.not_mem_nil, or_false] at ht
    rcases ht with rfl | rfl | rfl | rfl | rfl | rfl | rfl | rfl | rfl | rfl
    · exact ⟨.noneOf, rfl⟩
    · exact ⟨.ne, rfl⟩
    · exact ⟨.notLike, rfl⟩
    · exact ⟨.ge, rfl⟩
    · exact ⟨.le, rfl⟩
    · exact ⟨.oneOf, rfl⟩
    · exact ⟨.eq, rfl⟩
    · exact ⟨.gt, rfl⟩
    · exact ⟨.lt, rfl⟩
    · exact ⟨.like, rfl⟩
  · rintro ⟨op, hop⟩
    cases op with
    | contains | startsWith | endsWith => cases hop
    | _ =>
      obtain rfl := Option.some.inj hop
      decide

/-- How many characters after the opening quote the literal takes, its closing quote included. -/
def quotedExtent : List Char → Option Nat
  | [] => none
  | '\'' :: '\'' :: cs => (quotedExtent cs).map (· + 2)
  | '\'' :: _ => some 1
  | _ :: cs => (quotedExtent cs).map (· + 1)

theorem quotedExtent_le {cs : List Char} {n : Nat} (h : quotedExtent cs = some n) :
    n ≤ cs.length := by
  fun_induction quotedExtent cs generalizing n with
  | case1 => simp at h
  | case2 cs ih =>
    obtain ⟨m, hm, rfl⟩ := Option.map_eq_some_iff.1 h
    simpa using ih hm
  | case3 cs _ => simp_all
  | case4 c cs _ _ ih =>
    obtain ⟨m, hm, rfl⟩ := Option.map_eq_some_iff.1 h
    simpa using ih hm

def numberExtent (cs : List Char) : Nat :=
  let whole := (cs.takeWhile Char.isDigit).length
  match cs.drop whole with
  | '.' :: ds =>
    let fraction := (ds.takeWhile Char.isDigit).length
    if fraction = 0 then whole else whole + 1 + fraction
  | _ => whole

theorem numberExtent_le (cs : List Char) : numberExtent cs ≤ cs.length := by
  have whole := (List.takeWhile_sublist (p := Char.isDigit) (l := cs)).length_le
  simp only [numberExtent]
  split
  · next ds h =>
    have fraction := (List.takeWhile_sublist (p := Char.isDigit) (l := ds)).length_le
    have rest := congrArg List.length h
    rw [List.length_drop, List.length_cons] at rest
    split <;> omega
  · exact whole

def wordExtent (cs : List Char) : Nat := (cs.takeWhile isWordChar).length

theorem wordExtent_le (cs : List Char) : wordExtent cs ≤ cs.length :=
  (List.takeWhile_sublist _).length_le

/-- The lexeme that starts with `c`: its kind, and how many characters of `cs` it takes. -/
def first (c : Char) (cs : List Char) : Except LexReason (TokenKind × Nat) :=
  if c = '(' then .ok (.leftParen, 0)
  else if c = ')' then .ok (.rightParen, 0)
  else if c = ',' then .ok (.comma, 0)
  else if c = '\'' then
    match quotedExtent cs with
    | some n => .ok (.stringLiteral, n)
    | none => .error .unterminatedString
  else if c.isDigit || c = '-' && cs.head?.any Char.isDigit then
    .ok (.numberLiteral, numberExtent cs)
  else if isWordStart c then
    let n := wordExtent cs
    .ok (wordKind (.ofList (c :: cs.take n)), n)
  else
    match symbols.find? (·.isPrefixOf (c :: cs)) with
    | some s => .ok (.comparisonOperator, s.length - 1)
    | none => .error (.unexpectedCharacter c)

theorem first_le {c : Char} {cs : List Char} {kind : TokenKind} {n : Nat}
    (h : first c cs = .ok (kind, n)) : n ≤ cs.length := by
  simp only [first] at h
  split at h
  · cases h
    exact Nat.zero_le _
  split at h
  · cases h
    exact Nat.zero_le _
  split at h
  · cases h
    exact Nat.zero_le _
  split at h
  · split at h
    · next hq =>
      cases h
      exact quotedExtent_le hq
    · cases h
  split at h
  · cases h
    exact numberExtent_le cs
  split at h
  · cases h
    exact wordExtent_le cs
  · split at h
    · next s hs =>
      cases h
      have start : s.isPrefixOf (c :: cs) := by simpa using List.find?_some hs
      have := (List.isPrefixOf_iff_prefix.1 start).length_le
      rw [List.length_cons] at this
      omega
    · cases h

/-- The tokens of `cs` behind its first `skip` characters, where `offset` bytes stand before it. -/
def scan (offset : Nat) : (skip : Nat) → List Char → Except LexError (List Token)
  | _, [] => .ok [.atEnd offset]
  | skip + 1, c :: cs => scan (offset + c.utf8Size) skip cs
  | 0, c :: cs =>
    if Text.isBlank c then scan (offset + c.utf8Size) 0 cs
    else
      match first c cs with
      | .error reason => .error ⟨offset, reason⟩
      | .ok (kind, n) => do
        let rest ← scan (offset + c.utf8Size) n cs
        .ok (⟨kind, .ofList (c :: cs.take n), offset⟩ :: rest)

theorem scan_skip (offset skip : Nat) (cs : List Char) :
    scan offset skip cs = scan (offset + Text.byteLength (cs.take skip)) 0 (cs.drop skip) := by
  induction cs generalizing offset skip with
  | nil => simp [scan]
  | cons c cs ih =>
    cases skip with
    | zero => simp
    | succ skip => rw [scan, ih]; simp [Nat.add_assoc]

end Lexeme

def tokenize (input : String) : Except LexError (List Token) := Lexeme.scan 0 0 input.toList

end FilterQuery.Expression
