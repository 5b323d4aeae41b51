import LoopNest.Compiler.Mathematics

/-!
# Printed numbers

How numbers are written by the directives of a format. Fractions are written exactly to the digits
that are asked for; of two texts at the same distance the one with an even last digit is taken.
-/

namespace LoopNest.Compiler

/-- A directive of a format. -/
structure Conversion where
  isLeft : Bool := false
  showsPlus : Bool := false
  showsBlank : Bool := false
  isAlternate : Bool := false
  padsZeros : Bool := false
  width : Nat := 0
  takesWidth : Bool := false
  precision : Option Nat := none
  takesPrecision : Bool := false
  /-- The letters about the type of the argument. -/
  length : String := ""
  letter : Char := '%'
deriving DecidableEq, Repr, Inhabited

inductive Piece where
  | text (c : Char)
  | conversion (c : Conversion)
deriving Repr, Inhabited

namespace Conversion

/-- A directive with the flags at the start of some characters. -/
def withFlags (c : Conversion) : List Char → Conversion × List Char
  | '-' :: cs => withFlags { c with isLeft := true } cs
  | '+' :: cs => withFlags { c with showsPlus := true } cs
  | ' ' :: cs => withFlags { c with showsBlank := true } cs
  | '#' :: cs => withFlags { c with isAlternate := true } cs
  | '0' :: cs => withFlags { c with padsZeros := true } cs
  | cs => (c, cs)

/-- The number at the start of some characters. -/
def digitsOf (cs : List Char) : Nat × List Char :=
  ((cs.takeWhile Char.isDigit).foldl (fun n d => 10 * n + (d.toNat - '0'.toNat)) 0,
    cs.dropWhile Char.isDigit)

/-- A directive with the width at the start of some characters. -/
def withWidth (c : Conversion) : List Char → Conversion × List Char
  | '*' :: cs => ({ c with takesWidth := true }, cs)
  | cs =>
    let (n, cs) := digitsOf cs
    ({ c with width := n }, cs)

/-- A directive with the precision at the start of some characters. -/
def withPrecision (c : Conversion) : List Char → Conversion × List Char
  | '.' :: '*' :: cs => ({ c with takesPrecision := true }, cs)
  | '.' :: cs =>
    let (n, cs) := digitsOf cs
    ({ c with precision := some n }, cs)
  | cs => (c, cs)

/-- Whether a letter is about the type of the argument. -/
def isLength (c : Char) : Bool := ['h', 'l', 'L', 'j', 'z', 't', 'q'].contains c

/-- The directive after its sign, and what follows it. -/
def ofChars? (cs : List Char) : Option (Conversion × List Char) :=
  let (c, cs) := withFlags {} cs
  let (c, cs) := c.withWidth cs
  let (c, cs) := c.withPrecision cs
  let length := cs.takeWhile isLength
  match cs.dropWhile isLength with
  | letter :: rest => some ({ c with length := String.ofList length, letter }, rest)
  | [] => none

def integerType (c : Conversion) : Integer :=
  let signed : Integer := match c.length with
    | "hh" => .signedChar
    | "h" => .short
    | "" => .int
    | _ => .long
  if c.letter = 'd' || c.letter = 'i' then signed else signed.unsigned

def cells (c : Conversion) : List Cell :=
  let numbers := (if c.takesWidth then [Cell.integer .int] else [])
    ++ if c.takesPrecision then [Cell.integer .int] else []
  numbers ++ match c.letter with
    | 'd' | 'i' | 'u' | 'o' | 'x' | 'X' =>
      [if c.integerType.bytes = 8 then .integer .long else .integer .int]
    | 'c' => [.integer .int]
    | 's' | 'p' | 'n' => [Cell.pointer]
    | 'f' | 'F' | 'e' | 'E' | 'g' | 'G' | 'a' | 'A' =>
      [if c.length = "L" then .fraction .extended else .fraction .double]
    | _ => []

/-- The directive with the width and the precision that are arguments, and the other arguments. -/
def settled (c : Conversion) (args : List Value) : Conversion × List Value :=
  let (c, args) := match c.takesWidth, args with
    | true, .integer n :: rest =>
      ({ c with width := n.natAbs, isLeft := c.isLeft || n < 0 }, rest)
    | _, args => (c, args)
  match c.takesPrecision, args with
  | true, .integer n :: rest => ({ c with precision := if n < 0 then none else some n.toNat }, rest)
  | _, args => (c, args)

/-- A text in the width of a directive. Zeros stand between the sign and the digits. -/
def padded (c : Conversion) (zeros : Bool) (sign body : List Char) : List Char :=
  let missing := c.width - (sign.length + body.length)
  if c.isLeft then sign ++ body ++ List.replicate missing ' '
  else if zeros then sign ++ List.replicate missing '0' ++ body
  else List.replicate missing ' ' ++ sign ++ body

def signText (c : Conversion) (isNegative : Bool) : List Char :=
  if isNegative then ['-'] else if c.showsPlus then ['+'] else if c.showsBlank then [' '] else []

def integerText (c : Conversion) (v : Int) : List Char :=
  let v := c.integerType.wrap v
  let base := match c.letter with
    | 'o' => 8
    | 'x' | 'X' => 16
    | _ => 10
  let digits := if v = 0 && c.precision = some 0 then [] else Nat.toDigits base v.natAbs
  let digits := List.replicate (c.precision.getD 0 - digits.length) '0' ++ digits
  let digits := if c.letter = 'o' && c.isAlternate && digits.head? ≠ some '0' then '0' :: digits else digits
  let digits := if c.letter = 'X' then digits.map Char.toUpper else digits
  let isSigned := c.letter = 'd' || c.letter = 'i'
  let sign := if isSigned then c.signText (v < 0)
    else if c.isAlternate && v ≠ 0 && base = 16 then ['0', c.letter] else []
  c.padded (c.padsZeros && c.precision.isNone) sign digits

/-- A fraction without its sign as a quotient of integers. -/
def quotientOf (v : Float) : Nat × Nat :=
  let (m, e) := Mathematics.parts v
  if e < 0 then (m, Nat.pow 2 (-e).toNat) else (m * Nat.pow 2 e.toNat, 1)

/-- Digits with a point in front of the last ones. -/
def withPoint (c : Conversion) (places : Nat) (digits : List Char) : List Char :=
  let digits := List.replicate (places + 1 - digits.length) '0' ++ digits
  let whole := digits.take (digits.length - places)
  let rest := digits.drop (digits.length - places)
  if rest.isEmpty && !c.isAlternate then whole else whole ++ '.' :: rest

/-- The text of a fraction without an exponent. -/
def fixedText (c : Conversion) (places : Nat) (v : Float) : List Char :=
  let (n, d) := quotientOf v
  c.withPoint places (Nat.toDigits 10 (Mathematics.nearestQuotient (n * Nat.pow 10 places) d))

/-- A quotient times a power of ten, rounded to an integer. -/
def scaled (n d : Nat) (power : Int) : Nat :=
  if 0 ≤ power then Mathematics.nearestQuotient (n * Nat.pow 10 power.toNat) d
  else Mathematics.nearestQuotient n (d * Nat.pow 10 (-power).toNat)

/-- The exponent of ten of a quotient that is not zero. -/
def exponentOf (n d : Nat) : Int :=
  let guess : Int := ((Nat.toDigits 10 n).length : Int) - (Nat.toDigits 10 d).length
  let isLess := if 0 ≤ guess then n < d * Nat.pow 10 guess.toNat else n * Nat.pow 10 (-guess).toNat < d
  if isLess then guess - 1 else guess

/-- The digits of a fraction, as many as given and one more, and its exponent of ten. -/
def significant (places : Nat) (v : Float) : Nat × Int :=
  let (n, d) := quotientOf v
  if n = 0 then (0, 0)
  else
    let e := exponentOf n d
    let digits := scaled n d (places - e)
    if Nat.pow 10 (places + 1) ≤ digits then (digits / 10, e + 1) else (digits, e)

def exponentText (mark : Char) (least : Nat) (e : Int) : List Char :=
  let digits := Nat.toDigits 10 e.natAbs
  mark :: (if e < 0 then '-' else '+') :: (List.replicate (least - digits.length) '0' ++ digits)

def scientificText (c : Conversion) (places : Nat) (v : Float) : List Char :=
  let (digits, e) := significant places v
  let text := Nat.toDigits 10 digits
  let text := List.replicate (places + 1 - text.length) '0' ++ text
  c.withPoint places text ++ exponentText 'e' 2 e

/-- A text without zeros at the end of its places. -/
def trimmed (cs : List Char) : List Char :=
  if cs.contains '.' then
    let rest := cs.reverse.dropWhile (· == '0')
    (if rest.head? = some '.' then rest.tail else rest).reverse
  else cs

/-- The shorter text of a fraction. -/
def generalText (c : Conversion) (v : Float) : List Char :=
  let p := match c.precision with
    | none => 6
    | some n => max n 1
  let (_, e) := significant (p - 1) v
  let trim (cs : List Char) : List Char := if c.isAlternate then cs else trimmed cs
  if e < p && -4 ≤ e then trim (c.fixedText (p - 1 - e).toNat v)
  else
    let text := c.scientificText (p - 1) v
    let digits := text.takeWhile (· ≠ 'e')
    trim digits ++ text.dropWhile (· ≠ 'e')

/-- The text of a fraction with digits of base sixteen. -/
def hexText (c : Conversion) (v : Float) : List Char :=
  let (m, e) := Mathematics.parts v
  let isNormal := Nat.pow 2 52 ≤ m
  let e : Int := if m = 0 then 0 else if isNormal then e + 52 else -1022
  let lead := m / Nat.pow 2 52
  let rest := m % Nat.pow 2 52
  let (lead, digits) := match c.precision with
    | some p =>
      if p < 13 then
        let n := Mathematics.nearestQuotient (lead * Nat.pow 2 52 + rest) (Nat.pow 16 (13 - p))
        let text := Nat.toDigits 16 (n % Nat.pow 16 p)
        (n / Nat.pow 16 p, (List.replicate (p - text.length) '0' ++ text).drop (if p = 0 then text.length else 0))
      else
        let text := Nat.toDigits 16 rest
        (lead, List.replicate (13 - text.length) '0' ++ text ++ List.replicate (p - 13) '0')
    | none =>
      let text := Nat.toDigits 16 rest
      let text := List.replicate (13 - text.length) '0' ++ text
      (lead, (text.reverse.dropWhile (· == '0')).reverse)
  Nat.toDigits 10 lead ++ (if digits.isEmpty && !c.isAlternate then [] else '.' :: digits)
    ++ exponentText 'p' 1 e

def fractionText (c : Conversion) (v : Float) : List Char :=
  let isUpper := c.letter.isUpper
  let raise (cs : List Char) : List Char := if isUpper then cs.map Char.toUpper else cs
  let sign := c.signText (Mathematics.isNegative v)
  if v.isNaN || v.isInf then
    c.padded false sign (raise (if v.isNaN then ['n', 'a', 'n'] else ['i', 'n', 'f']))
  else
    let places := c.precision.getD 6
    match c.letter.toLower with
    | 'f' => c.padded c.padsZeros sign (c.fixedText places v)
    | 'e' => c.padded c.padsZeros sign (raise (c.scientificText places v))
    | 'g' => c.padded c.padsZeros sign (raise (c.generalText v))
    | _ => c.padded c.padsZeros (sign ++ raise ['0', 'x']) (raise (c.hexText v))

end Conversion

namespace Piece

/-- The pieces of a format. The fuel bounds their number. -/
def split (fuel : Nat) (done : List Piece) (cs : List Char) : List Piece :=
  match fuel, cs with
  | 0, _ | _, [] => done.reverse
  | fuel + 1, '%' :: cs =>
    match Conversion.ofChars? cs with
    | some (c, rest) => split fuel (.conversion c :: done) rest
    | none => done.reverse
  | fuel + 1, c :: cs => split fuel (.text c :: done) cs

def ofFormat (cs : List Char) : List Piece := split (cs.length + 1) [] cs

end Piece

end LoopNest.Compiler
