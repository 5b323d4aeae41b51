import LoopNest.Digest.Bytes
import LoopNest.Toml.Value

/-!
# Texts, names, numbers and moments of a TOML document

Every function reads one item from the front of a list of characters and returns it with what
follows, or nothing if the item is malformed.
-/

namespace LoopNest.Toml

/-! ## Dates and times -/

/-- The number written by a given count of digits, and what follows. -/
def fixedDigits : Nat → Nat → List Char → Option (Nat × List Char)
  | 0, n, cs => some (n, cs)
  | count + 1, n, c :: cs => if c.isDigit then fixedDigits count (10 * n + (c.toNat - 48)) cs else none
  | _ + 1, _, [] => none

/-- What follows an expected character. -/
def skipChar (c : Char) : List Char → Option (List Char)
  | d :: cs => if d = c then some cs else none
  | [] => none

def daysIn (year month : Nat) : Nat :=
  if month = 2 then
    if year % 4 = 0 ∧ (year % 100 ≠ 0 ∨ year % 400 = 0) then 29 else 28
  else if month = 4 ∨ month = 6 ∨ month = 9 ∨ month = 11 then 30
  else 31

def skipDate (cs : List Char) : Option (List Char) := do
  let (year, cs) ← fixedDigits 4 0 cs
  let cs ← skipChar '-' cs
  let (month, cs) ← fixedDigits 2 0 cs
  let cs ← skipChar '-' cs
  let (day, cs) ← fixedDigits 2 0 cs
  if 1 ≤ month ∧ month ≤ 12 ∧ 1 ≤ day ∧ day ≤ daysIn year month then some cs else none

/-- The hour, which may have one digit. -/
def hour (cs : List Char) : Option (Nat × List Char) := fixedDigits 2 0 cs <|> fixedDigits 1 0 cs

/-- What follows a fraction of a second, if there is one. -/
def skipFraction : List Char → List Char
  | '.' :: c :: cs => if c.isDigit then cs.dropWhile Char.isDigit else '.' :: c :: cs
  | cs => cs

def skipTime (cs : List Char) : Option (List Char) := do
  let (h, cs) ← hour cs
  let cs ← skipChar ':' cs
  let (m, cs) ← fixedDigits 2 0 cs
  let cs ← skipChar ':' cs
  let (s, cs) ← fixedDigits 2 0 cs
  if h < 24 ∧ m < 60 ∧ s < 60 then some (skipFraction cs) else none

/-- Whether a text is an offset from universal time. -/
def isOffset : List Char → Bool
  | ['Z'] => true
  | c :: cs =>
    (c == '+' || c == '-') && ((do
      let (h, cs) ← fixedDigits 2 0 cs
      let cs ← skipChar ':' cs
      let (m, cs) ← fixedDigits 2 0 cs
      return h ≤ 24 && m ≤ 60 && cs.isEmpty).getD false)
  | [] => false

/-- Whether a text is a moment. A blank or a small letter may stand for the letter between the
date and the time. -/
def isMoment (cs : List Char) : Bool :=
  let cs := cs.map fun c => if c = 't' ∨ c = ' ' then 'T' else if c = 'z' then 'Z' else c
  match skipDate cs with
  | some [] => true
  | some ('T' :: time) => ((skipTime time).map fun rest => rest.isEmpty || isOffset rest).getD false
  | some _ => false
  | none => (skipTime cs).map List.isEmpty == some true

/-! ## Texts, names and numbers -/

def isBlank (c : Char) : Bool := c == ' ' || c == '\t'

/-- Characters that end a line. -/
def isNewline (c : Char) : Bool := c == '\n' || c == '\r'

def skipBlank (cs : List Char) : List Char := cs.dropWhile isBlank

/-- The character with a code written in hexadecimal. -/
def codePoint? (digits : List Char) : Option Char := do
  let n ← digits.foldlM (fun n c => do return 16 * n + (← Bytes.hexValue? c)) 0
  if h : n.isValidChar then some (Char.ofNatAux n h) else none

def escape? : Char → Option Char
  | 'b' => some '\x08'
  | 't' => some '\t'
  | 'n' => some '\n'
  | 'f' => some '\x0c'
  | 'r' => some '\r'
  | '"' => some '"'
  | '\\' => some '\\'
  | _ => none

/-- The rest of a text on one line, up to the double quote that ends it. -/
def basicText : List Char → Option (List Char × List Char)
  | [] => none
  | '"' :: rest => some ([], rest)
  | '\\' :: 'u' :: a :: b :: c :: d :: rest => do
    let x ← codePoint? [a, b, c, d]
    let (s, rest) ← basicText rest
    return (x :: s, rest)
  | '\\' :: 'U' :: a :: b :: c :: d :: e :: f :: g :: h :: rest => do
    let x ← codePoint? [a, b, c, d, e, f, g, h]
    let (s, rest) ← basicText rest
    return (x :: s, rest)
  | '\\' :: c :: rest => do
    let x ← escape? c
    let (s, rest) ← basicText rest
    return (x :: s, rest)
  | c :: rest => do
    if isNewline c then none
    else
      let (s, rest) ← basicText rest
      return (c :: s, rest)

/-- The rest of a text without escapes on one line. -/
def literalText (cs : List Char) : Option (List Char × List Char) :=
  match cs.dropWhile fun c => c ≠ '\'' && !isNewline c with
  | '\'' :: rest => some (cs.takeWhile (· ≠ '\''), rest)
  | _ => none

/-- The characters up to three quotes, escapes left as they are. `before` holds the reversed
characters so far. Up to two quotes may stand right in front of the last three. -/
def quotedBlock (escapes : Bool) (q : Char) (before : List Char) :
    List Char → Option (List Char × List Char)
  | [] => none
  | c :: rest =>
    if c = '\\' ∧ escapes then
      match rest with
      | [] => none
      | d :: rest => quotedBlock escapes q (d :: c :: before) rest
    else if c = q ∧ rest.take 2 = [q, q] then
      if rest[2]? = some q then
        if before.take 2 = [q, q] ∧ ¬ (escapes ∧ before[2]? = some '\\') then none
        else quotedBlock escapes q (c :: before) rest
      else some (before.reverse, rest.drop 2)
    else quotedBlock escapes q (c :: before) rest

/-- A block without the line break right after its opening quotes. -/
def dropFirstBreak : List Char → List Char
  | '\n' :: cs => cs
  | '\r' :: '\n' :: cs => cs
  | cs => cs

/-- Replaces the escapes of a block. A backslash at the end of a line takes the white space after
it away. -/
def unescapeBlock (cs : List Char) : Option (List Char) :=
  match cs with
  | [] => some []
  | '\\' :: 'u' :: a :: b :: c :: d :: rest => do
    return (← codePoint? [a, b, c, d]) :: (← unescapeBlock rest)
  | '\\' :: 'U' :: a :: b :: c :: d :: e :: f :: g :: h :: rest => do
    return (← codePoint? [a, b, c, d, e, f, g, h]) :: (← unescapeBlock rest)
  | '\\' :: c :: rest =>
    if isBlank c ∨ isNewline c then
      let gap (c : Char) := isBlank c || isNewline c
      if (c :: rest.takeWhile gap).contains '\n' then unescapeBlock (rest.dropWhile gap) else none
    else do return (← escape? c) :: (← unescapeBlock rest)
  | c :: rest => do
    if c = '\\' then none else return c :: (← unescapeBlock rest)
termination_by cs.length
decreasing_by
  all_goals simp only [List.length_cons]
  all_goals first
    | omega
    | exact Nat.lt_of_le_of_lt (List.dropWhile_sublist _).length_le (by omega)

def text? : List Char → Option (String × List Char)
  | '"' :: '"' :: '"' :: cs => do
    let (raw, rest) ← quotedBlock true '"' [] cs
    return (String.ofList (← unescapeBlock (dropFirstBreak raw)), rest)
  | '\'' :: '\'' :: '\'' :: cs => do
    let (raw, rest) ← quotedBlock false '\'' [] cs
    return (String.ofList (dropFirstBreak raw), rest)
  | '"' :: cs => do
    let (s, rest) ← basicText cs
    return (String.ofList s, rest)
  | '\'' :: cs => do
    let (s, rest) ← literalText cs
    return (String.ofList s, rest)
  | _ => none

def name? : List Char → Option (String × List Char)
  | '"' :: cs => do
    let (s, rest) ← basicText cs
    return (String.ofList s, rest)
  | '\'' :: cs => do
    let (s, rest) ← literalText cs
    return (String.ofList s, rest)
  | cs =>
    match cs.takeWhile isBare with
    | [] => none
    | s => some (String.ofList s, cs.dropWhile isBare)

/-- The parts of a key up to the character that ends it, with dots between them. -/
def keyParts (close : Char) : Nat → List Char → Option (Key × List Char)
  | 0, _ => none
  | fuel + 1, cs => do
    let (part, rest) ← name? (skipBlank cs)
    match skipBlank rest with
    | '.' :: rest =>
      let (parts, rest) ← keyParts close fuel rest
      return (part :: parts, rest)
    | c :: rest => if c = close then return ([part], rest) else none
    | [] => none

/-- A key up to the character that ends it. -/
def key? (close : Char) (cs : List Char) : Option (Key × List Char) := keyParts close (cs.length + 1) cs

/-- Whether every underscore follows a digit and the last character is a digit; `last` tells
whether a digit is right in front. -/
def underscoresOk : Bool → List Char → Bool
  | last, [] => last
  | last, c :: cs => (c ≠ '_' || last) && underscoresOk (Bytes.hexValue? c).isSome cs

/-- Whether digits go on after a zero. -/
def hasLeadingZero : List Char → Bool
  | '0' :: _ :: _ => true
  | _ => false

/-- The number written by digits of a base; underscores are passed over. -/
def natural (base : Nat) (cs : List Char) : Option Nat :=
  cs.foldlM (fun n c => if c = '_' then some n else do
    let d ← Bytes.hexValue? c
    if d < base then some (base * n + d) else none) 0

def signed? (negative : Bool) (n : Nat) : Option Value :=
  if negative then if n ≤ Nat.pow 2 63 then some (.integer (-(n : Int))) else none
  else if n < Nat.pow 2 63 then some (.integer n) else none

def exponent? : List Char → Option Int
  | '+' :: cs => if cs.isEmpty then none else (natural 10 cs).map Int.ofNat
  | '-' :: cs => if cs.isEmpty then none else (natural 10 cs).map fun n => -(n : Int)
  | cs => if cs.isEmpty then none else (natural 10 cs).map Int.ofNat

/-- The number `m * 10 ^ e` in double precision; none if it is too large. -/
def scaled? (m : Nat) (e : Int) : Option Float :=
  let size : Int := (Nat.toDigits 10 m).length + e
  if m = 0 ∨ size < -400 then some 0
  else if 400 < size then none
  else
    let x := if e < 0 then Float.ofScientific m true e.natAbs else Float.ofScientific m false e.natAbs
    if x.isInf then none else some x

/-- Whether a character separates the parts of a number with a fraction or an exponent. -/
def isFloatMark (c : Char) : Bool := c == '.' || c == 'e' || c == 'E'

/-- The value of a number with a fraction or an exponent, given the digits in front and the rest:
a point is followed by digits, and so is the exponent mark with its sign. -/
def float? (negative : Bool) (front rest : List Char) : Option Value := do
  let (fraction, power) := match rest with
    | '.' :: cs => (some (cs.takeWhile fun c => !isFloatMark c), cs.dropWhile fun c => !isFloatMark c)
    | cs => (none, cs)
  let digits := fraction.getD []
  if fraction = some [] then none
  else
    let exponent ← match power with
      | [] => some 0
      | c :: cs => if c = '.' then none else if underscoresOk false cs then exponent? cs else none
    if hasLeadingZero front ∨ ¬ underscoresOk false front
        ∨ (fraction.isSome ∧ ¬ underscoresOk false digits) then none
    else
      let places := (digits.filter (· ≠ '_')).length
      let x ← scaled? (← natural 10 (front ++ digits)) (exponent - places)
      return .float (if negative then -x else x)

/-- Characters of a number with a fraction or an exponent. -/
def isFloatChar (c : Char) : Bool := c.isDigit || isFloatMark c || c == '_' || c == '-' || c == '+'

def isMomentChar (c : Char) : Bool :=
  c.isDigit || ['-', ':', 'T', 't', ' ', '.', 'Z', 'z', '+'].contains c

def marked? (base : Nat) (cs : List Char) : Option (Value × List Char) := do
  let isDigit (c : Char) := (Bytes.hexValue? c).any (· < base)
  let ds := cs.takeWhile fun c => c == '_' || isDigit c
  if ds.head?.any isDigit ∧ underscoresOk false ds then
    return (← signed? false (← natural base ds), cs.drop ds.length)
  else none

/-- A decimal number after its sign, if it has one. -/
def decimal? (negative : Bool) (cs : List Char) : Option (Value × List Char) := do
  let front := cs.takeWhile fun c => c.isDigit || c == '_'
  let rest := cs.drop front.length
  if !front.head?.any Char.isDigit then none
  else if rest.head?.any isFloatMark then
    let tail := rest.takeWhile isFloatChar
    return (← float? negative front tail, rest.drop tail.length)
  else if hasLeadingZero front ∨ ¬ underscoresOk false front then none
  else return (← signed? negative (← natural 10 front), rest)

/-- A moment or a number without a sign. A moment has at least two digits in front if the first is
a zero. -/
def unsigned? (cs : List Char) : Option (Value × List Char) :=
  let digits := cs.takeWhile Char.isDigit
  match cs.dropWhile Char.isDigit with
  | c :: _ =>
    if digits ≠ ['0'] ∧ (c = '-' ∨ c = ':') then
      let run := cs.takeWhile isMomentChar
      let moment := (run.reverse.dropWhile (· = ' ')).reverse
      if isMoment moment then some (.moment (String.ofList moment), cs.drop run.length) else none
    else decimal? false cs
  | [] => decimal? false cs

def special? (negative : Bool) : List Char → Option (Value × List Char)
  | 'i' :: 'n' :: 'f' :: rest => some (.float (if negative then -1.0 / 0.0 else 1.0 / 0.0), rest)
  | 'n' :: 'a' :: 'n' :: rest => some (.float (0.0 / 0.0), rest)
  | _ => none

/-- A value that is neither an array nor a table. -/
def scalar? (cs : List Char) : Option (Value × List Char) :=
  match cs with
  | '"' :: _ | '\'' :: _ => (text? cs).map fun (s, rest) => (.text s, rest)
  | 't' :: 'r' :: 'u' :: 'e' :: rest => some (.truth true, rest)
  | 'f' :: 'a' :: 'l' :: 's' :: 'e' :: rest => some (.truth false, rest)
  | '0' :: 'x' :: rest => marked? 16 rest
  | '0' :: 'o' :: rest => marked? 8 rest
  | '0' :: 'b' :: rest => marked? 2 rest
  | '+' :: rest => special? false rest <|> decimal? false rest
  | '-' :: rest => special? true rest <|> decimal? true rest
  | c :: _ => if c.isDigit then unsigned? cs else special? false cs
  | [] => none

end LoopNest.Toml
