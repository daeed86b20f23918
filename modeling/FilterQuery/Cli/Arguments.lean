import FilterQuery.Cli.Key

/-! Settings read from command line arguments and environment variables. The program leaves this to
a library for arguments, for whose rules the ones here stand: a value counts when the next option or
positional argument begins, or the arguments end. The texts of the errors are not the library's.
Nothing that is said of settings elsewhere depends on how they were read. -/

namespace FilterQuery.Cli

inductive ArgumentError where
  | missingRequiredArgument
  | unknownArgument
  | invalidValue
  | valueValidation
  | argumentConflict
  | tooManyValues
  | displayHelp
  deriving DecidableEq, Repr

def ArgumentError.message : ArgumentError → String
  | missingRequiredArgument => "a collection is required"
  | unknownArgument => "unexpected argument"
  | invalidValue => "an option is without its value"
  | valueValidation => "invalid value for an option"
  | argumentConflict => "an option is given twice"
  | tooManyValues => "unexpected value for a flag"
  | displayHelp => "quarry [OPTIONS] <COLLECTION>"

inductive Pending where
  | nothing
  | option (key : Key)
  | value (key : Key) (text : String)

/-- A word behind a dash that is a number: digits, perhaps with one point that is not in front, and
an exponent of digits alone. -/
def isNumeral (word : List Char) : Bool :=
  let mantissa := word.takeWhile (!Decimal.isExponentMark ·)
  let mantissaFits := (mantissa.erase '.').all Char.isDigit && mantissa.head? != some '.'
  let exponentFits := match word.dropWhile (!Decimal.isExponentMark ·) with
    | [] => true
    | _ :: digits => !mantissa.isEmpty && !digits.isEmpty && digits.all Char.isDigit
  mantissaFits && exponentFits

structure Arguments where
  settings : Settings := {}
  given : List Key := []
  pending : Pending := .nothing
  /-- Whether only positional arguments can follow. -/
  positionalOnly : Bool := false
  collectionGiven : Bool := false

namespace Arguments

def put (a : Arguments) (key : Key) (text : String) : Except ArgumentError Arguments :=
  if a.given.contains key && !key.repeats then .error .argumentConflict
  else
    match a.settings.set? key text with
    | some settings => .ok { a with settings, given := key :: a.given }
    | none => .error .valueValidation

def resolve (a : Arguments) : Except ArgumentError Arguments :=
  match a.pending with
  | .nothing => .ok a
  | .option _ => .error .invalidValue
  | .value key text => { a with pending := .nothing }.put key text

def positional (a : Arguments) (text : String) : Except ArgumentError Arguments :=
  if a.collectionGiven then .error .unknownArgument
  else do
    let a ← a.resolve
    .ok { a with pending := .value .collection text, collectionGiven := true }

def word (a : Arguments) (text : String) : Except ArgumentError Arguments :=
  match a.pending with
  | .option key => .ok { a with pending := .value key text }
  | _ => a.positional text

def option (a : Arguments) (key : Key) (attached : Option String) :
    Except ArgumentError Arguments :=
  if key.takesValue then do
    let a ← a.resolve
    match attached with
    | some text => a.put key text
    | none => .ok { a with pending := .option key }
  else if attached.isSome then .error .tooManyValues
  else do
    let a ← a.resolve
    if key = .help then .error .displayHelp else a.put key ""

def long (a : Arguments) (cs : List Char) : Except ArgumentError Arguments :=
  let name := cs.takeWhile (· ≠ '=')
  let attached := match cs.dropWhile (· ≠ '=') with
    | _ :: value => some (String.ofList value)
    | [] => none
  match Key.ofLong? (.ofList name) with
  | some key => a.option key attached
  | none => .error .unknownArgument

def short (a : Arguments) (letter : Char) (cs : List Char) : Except ArgumentError Arguments :=
  let attached := match cs with
    | [] => none
    | '=' :: value => some (String.ofList value)
    | value => some (String.ofList value)
  match Key.ofShort? letter with
  | some key => if key.takesValue then a.option key attached else a.option key none
  | none => .error .unknownArgument

def awaitsNumber (a : Arguments) : Bool :=
  match a.pending with
  | .option key => key.takesNegative
  | _ => false

def read (a : Arguments) (arg : String) : Except ArgumentError Arguments :=
  if a.positionalOnly then a.positional arg
  else
    match arg.toList with
    | ['-', '-'] => .ok { a with positionalOnly := true }
    | '-' :: '-' :: cs => a.long cs
    | '-' :: c :: cs =>
      if a.awaitsNumber && isNumeral (c :: cs) then a.word arg else a.short c cs
    | _ => a.word arg

def addVariables (a : Arguments) (environment : List (String × String)) :
    Except ArgumentError Arguments :=
  Key.all.foldlM (fun a key =>
    if a.given.contains key then .ok a
    else
      match key.environmentName?.bind fun name => environment.lookup name with
      | some text => a.put key text
      | none => .ok a) a

end Arguments

def readSettings (args : List String) (environment : List (String × String)) :
    Except ArgumentError Settings := do
  let a ← args.foldlM Arguments.read {}
  let a ← a.resolve
  let a ← a.addVariables environment
  if a.given.contains .collection then .ok a.settings else .error .missingRequiredArgument

end FilterQuery.Cli
