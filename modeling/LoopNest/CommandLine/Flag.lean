import LoopNest.Text.Lines
import LoopNest.Text.Printable

/-!
# Flags

A flag has a name, perhaps a letter, and a kind that says which values it takes. Arguments that
are not flags may stand anywhere between them. `FlagSet.parse` reads arguments up to the first
error; what was set before it stays set.
-/

namespace LoopNest

/-! ## Words -/

namespace Text

/-- Why a word is not read. -/
inductive WordError where
  | malformed
  | outOfRange
deriving DecidableEq, Repr, Inhabited

def WordError.reason : WordError → String
  | .malformed => "invalid syntax"
  | .outOfRange => "value out of range"

/-- The truth value that a word spells. -/
def truth? (s : String) : Option Bool :=
  if ["1", "t", "T", "TRUE", "true", "True"].contains s then some true
  else if ["0", "f", "F", "FALSE", "false", "False"].contains s then some false
  else none

/-- The value of a digit, where letters go on from ten. -/
def digitValue (c : Char) : Nat :=
  if '0' ≤ c ∧ c ≤ '9' then c.toNat - 48
  else if 'a' ≤ c ∧ c ≤ 'z' then c.toNat - 87
  else if 'A' ≤ c ∧ c ≤ 'Z' then c.toNat - 55
  else 36

/-- Reads digits of a base and skips underscores, up to the first character that is no digit or
the first digit that takes the number out of the unsigned 64-bit range. -/
def digits (base : Nat) : Nat → List Char → Except WordError Nat
  | n, [] => .ok n
  | n, '_' :: cs => digits base n cs
  | n, c :: cs =>
    if base ≤ digitValue c then .error .malformed
    else if Nat.pow 2 64 ≤ base * n + digitValue c then .error .outOfRange
    else digits base (base * n + digitValue c) cs

/-- Cuts the base mark off. A leading zero alone marks base eight. -/
def baseMark : List Char → Nat × List Char
  | '0' :: m :: c :: cs =>
    if m = 'x' ∨ m = 'X' then (16, c :: cs)
    else if m = 'b' ∨ m = 'B' then (2, c :: cs)
    else if m = 'o' ∨ m = 'O' then (8, c :: cs)
    else (8, m :: c :: cs)
  | '0' :: cs => (8, cs)
  | cs => (10, cs)

/-- Whether every underscore has a digit on either side; `last` tells whether a digit, or the base
mark, is right in front. -/
def separated : Bool → List Char → Bool
  | last, [] => last
  | last, '_' :: cs => last && separated false cs
  | _, _ :: cs => separated true cs

/-- The signed 64-bit integer that a word spells: an optional sign, an optional base mark, and
digits with underscores between them. -/
def integer (s : String) : Except WordError Int :=
  let (negative, cs) := match s.toList with
    | '-' :: cs => (true, cs)
    | '+' :: cs => (false, cs)
    | cs => (false, cs)
  if cs.isEmpty then .error .malformed
  else
    let (base, ds) := baseMark cs
    match digits base 0 ds with
    | .error e => .error e
    | .ok n =>
      if ds.contains '_' && !separated (ds.length < cs.length) ds then .error .malformed
      else if n ≤ (if negative then Nat.pow 2 63 else Nat.pow 2 63 - 1) then
        .ok (if negative then -(n : Int) else n)
      else .error .outOfRange

end Text

/-! ## Kinds of flags -/

/-- The values that a flag takes. -/
inductive FlagKind where
  | text
  /-- Texts with commas between them; values add up. -/
  | list
  /-- One of the given texts. -/
  | choice (values : List String)
  /-- A truth value, which is true when the flag stands alone. -/
  | switch
  | number
deriving DecidableEq, Repr, Inhabited

inductive FlagValue where
  | text (s : String)
  | list (all : List String)
  | switch (b : Bool)
  | number (n : Int)
deriving DecidableEq, Repr, Inhabited

structure Flag where
  name : String
  letter : Option Char := none
  kind : FlagKind
  doc : String := ""
  value : FlagValue
  /-- The flag was given. -/
  changed : Bool := false
deriving DecidableEq, Repr, Inhabited

/-- The value of a flag that was not given. -/
def FlagKind.unset : FlagKind → FlagValue
  | .text | .choice _ => .text ""
  | .list => .list []
  | .switch => .switch false
  | .number => .number 0

def FlagValue.render : FlagValue → String
  | .text s => s
  | .list all => ",".intercalate all
  | .switch b => if b then "true" else "false"
  | .number n => toString n

def FlagKind.typeName : FlagKind → String
  | .text | .choice _ => "string"
  | .list => "strings"
  | .switch => "bool"
  | .number => "int"

/-- What the flag does, with the values to choose from. -/
def Flag.usage (f : Flag) : String :=
  match f.kind with
  | .choice values => f.doc ++ " (" ++ "|".intercalate values ++ ")"
  | _ => f.doc

/-- Why a value is refused. -/
inductive ValueError where
  | notOneOf (value : String) (values : List String)
  | notTruth (value : String)
  | notNumber (value : String) (e : Text.WordError)
deriving DecidableEq, Repr, Inhabited

def ValueError.message : ValueError → String
  | .notOneOf value values =>
    "invalid value " ++ Text.quote value ++ ": must be one of " ++ ", ".intercalate values
  | .notTruth value =>
    "strconv.ParseBool: parsing " ++ Text.quote value ++ ": " ++ Text.WordError.malformed.reason
  | .notNumber value e => "strconv.ParseInt: parsing " ++ Text.quote value ++ ": " ++ e.reason

/-- The pieces between commas, without white space around them and without the empty ones. -/
def commaList (s : String) : List String :=
  ((s.splitOn ",").map Text.trim).filter fun piece => !piece.isEmpty

/-- The value of a flag after another value is given, and why that value is refused if it is. A
refused truth value counts as false. -/
def Flag.take (f : Flag) (value : String) : FlagValue × Option ValueError :=
  match f.kind with
  | .text => (.text value, none)
  | .list =>
    match f.value with
    | .list all => (.list (all ++ commaList value), none)
    | _ => (.list (commaList value), none)
  | .choice values =>
    if values.contains value then (.text value, none) else (f.value, some (.notOneOf value values))
  | .switch =>
    match Text.truth? value with
    | some b => (.switch b, none)
    | none => (.switch false, some (.notTruth value))
  | .number =>
    match Text.integer value with
    | .ok n => (.number n, none)
    | .error e => (.number 0, some (.notNumber value e))

/-- Why arguments are refused. -/
inductive FlagError where
  | malformed (arg : String)
  | unknown (name : String)
  | unknownLetter (letters : List Char)
  | needsValue (name : String)
  | needsLetterValue (letters : List Char)
  | refused (flag : Flag) (value : String) (reason : ValueError)
  /-- Help was asked for where no flag has that name. -/
  | help
deriving DecidableEq, Repr, Inhabited

/-- A letter between single quotes; beyond the letters of one byte only the first byte shows. -/
def quoteLetter (c : Char) : String :=
  if c = '\'' then "'\\''"
  else if c = '"' then "'\"'"
  else if c.toNat < 0x80 then "'" ++ Text.quoteChar c ++ "'"
  else "'Ã'"

/-- The first of some letters, and all of them. -/
def renderLetters (letters : List Char) : String :=
  quoteLetter (letters.headD ' ') ++ " in -" ++ String.ofList letters

def Flag.title (f : Flag) : String :=
  match f.letter with
  | some c => "-" ++ c.toString ++ ", --" ++ f.name
  | none => "--" ++ f.name

def FlagError.message : FlagError → String
  | .malformed arg => "bad flag syntax: " ++ arg
  | .unknown name => "unknown flag: --" ++ name
  | .unknownLetter letters => "unknown shorthand flag: " ++ renderLetters letters
  | .needsValue name => "flag needs an argument: --" ++ name
  | .needsLetterValue letters => "flag needs an argument: " ++ renderLetters letters
  | .refused flag value reason =>
    "invalid argument " ++ Text.quote value ++ " for " ++ Text.quote flag.title ++ " flag: "
      ++ reason.message
  | .help => "pflag: help requested"

/-- Flags in the order of their definition, with the arguments that are not flags. -/
structure FlagSet where
  flags : List Flag := []
  args : List String := []
deriving DecidableEq, Repr, Inhabited

namespace FlagSet

def find? (fs : FlagSet) (name : String) : Option Flag := fs.flags.find? (·.name == name)

def findLetter? (fs : FlagSet) (c : Char) : Option Flag := fs.flags.find? (·.letter == some c)

/-- Defines another flag. No two flags have one name. -/
def define? (fs : FlagSet) (f : Flag) : Option FlagSet :=
  if (fs.find? f.name).isSome then none else some { fs with flags := fs.flags ++ [f] }

def replace (fs : FlagSet) (f : Flag) : FlagSet :=
  { fs with flags := fs.flags.map fun g => if g.name == f.name then f else g }

def give (fs : FlagSet) (f : Flag) (value : String) : FlagSet × Option FlagError :=
  match f.take value with
  | (v, none) => (fs.replace { f with value := v, changed := true }, none)
  | (v, some e) => (fs.replace { f with value := v }, some (.refused f value e))

/-- Cuts a text at its first equals sign. -/
def splitEquals (cs : List Char) : List Char × Option (List Char) :=
  match cs.dropWhile (· ≠ '=') with
  | [] => (cs, none)
  | _ :: rest => (cs.takeWhile (· ≠ '='), some rest)

/-- A run of letters after a single dash. The last letter may take the next argument, in which
case the result tells so. Letters that address a test runner are passed over. -/
def letters (fs : FlagSet) (next : Option String) : List Char → FlagSet × Option FlagError × Bool
  | [] => (fs, none, false)
  | c :: cs =>
    if "test.".toList.isPrefixOf (c :: cs) then (fs, none, false)
    else match fs.findLetter? c with
    | none => (fs, some (if c = 'h' then .help else .unknownLetter (c :: cs)), false)
    | some f =>
      match cs with
      | '=' :: v :: vs =>
        let (fs, e) := fs.give f (String.ofList (v :: vs))
        (fs, e, false)
      | cs =>
        if f.kind = .switch then
          match fs.give f "true" with
          | (fs, some e) => (fs, some e, false)
          | (fs, none) => fs.letters next cs
        else if !cs.isEmpty then
          let (fs, e) := fs.give f (String.ofList cs)
          (fs, e, false)
        else match next with
          | some v =>
            let (fs, e) := fs.give f v
            (fs, e, true)
          | none => (fs, some (.needsLetterValue [c]), false)

/-- A name after two dashes. The result tells whether the next argument was taken as the value. -/
def long (fs : FlagSet) (next : Option String) (cs : List Char) : FlagSet × Option FlagError × Bool :=
  if cs.head? = some '-' ∨ cs.head? = some '=' then
    (fs, some (.malformed ("--" ++ String.ofList cs)), false)
  else
    let (key, inline) := splitEquals cs
    let name := String.ofList key
    match fs.find? name with
    | none => (fs, some (if name = "help" then .help else .unknown name), false)
    | some f =>
      match inline with
      | some v =>
        let (fs, e) := fs.give f (String.ofList v)
        (fs, e, false)
      | none =>
        if f.kind = .switch then
          let (fs, e) := fs.give f "true"
          (fs, e, false)
        else match next with
          | some v =>
            let (fs, e) := fs.give f v
            (fs, e, true)
          | none => (fs, some (.needsValue name), false)

/-- Reads arguments up to the first error. -/
def parse (fs : FlagSet) : List String → FlagSet × Option FlagError
  | [] => (fs, none)
  | arg :: rest =>
    match arg.toList with
    | '-' :: '-' :: [] => ({ fs with args := fs.args ++ rest }, none)
    | '-' :: c :: cs =>
      let (fs, e, taken) :=
        if c = '-' then fs.long rest.head? cs else fs.letters rest.head? (c :: cs)
      match e with
      | some e => (fs, some e)
      | none => if taken then fs.parse rest.tail else fs.parse rest
    | _ => parse { fs with args := fs.args ++ [arg] } rest
termination_by args => args.length
decreasing_by
  all_goals simp only [List.length_cons, List.length_tail]
  all_goals omega

/-- The text of a flag; empty if there is no such flag. -/
def text (fs : FlagSet) (name : String) : String :=
  match fs.find? name with
  | some { value := .text s, .. } => s
  | _ => ""

def list (fs : FlagSet) (name : String) : List String :=
  match fs.find? name with
  | some { value := .list all, .. } => all
  | _ => []

def isOn (fs : FlagSet) (name : String) : Bool :=
  (fs.find? name).map (·.value) == some (.switch true)

def isGiven (fs : FlagSet) (name : String) : Bool := ((fs.find? name).map (·.changed)).getD false

end FlagSet

end LoopNest
