import LoopNest.Compiler.CType
import LoopNest.Compiler.Token

/-!
# Values of C literals

The values and types of numbers, characters and strings, which are refused if they are not written
as the language says.
-/

namespace LoopNest.Compiler

namespace Literal

def digit (c : Char) : Nat :=
  if c.isDigit then c.toNat - '0'.toNat
  else if 'a' ≤ c.toLower && c.toLower ≤ 'f' then c.toLower.toNat - 'a'.toNat + 10
  else 16

def isDigitOf (base : Nat) (c : Char) : Bool := digit c < base

def value (base : Nat) (ds : List Char) : Nat := ds.foldl (fun n c => base * n + digit c) 0

/-- An integer: its value, whether it is written in the base ten, whether it has the letter for
types without negative values, and how often it has the letter for longer types. -/
structure Whole where
  value : Nat
  isDecimal : Bool
  isUnsigned : Bool
  longs : Nat
deriving DecidableEq, Repr, Inhabited

/-- What the letters after an integer say. -/
def suffix? (cs : List Char) : Option (Bool × Nat) :=
  match String.ofList cs with
  | "" => some (false, 0)
  | "u" | "U" => some (true, 0)
  | "l" | "L" => some (false, 1)
  | "ul" | "uL" | "Ul" | "UL" | "lu" | "lU" | "Lu" | "LU" => some (true, 1)
  | "ll" | "LL" => some (false, 2)
  | "ull" | "uLL" | "Ull" | "ULL" | "llu" | "llU" | "LLu" | "LLU" => some (true, 2)
  | _ => none

def digits : List Char → Nat × List Char
  | '0' :: 'x' :: cs | '0' :: 'X' :: cs => (16, cs)
  | '0' :: 'b' :: cs | '0' :: 'B' :: cs => (2, cs)
  | '0' :: cs => (8, '0' :: cs)
  | cs => (10, cs)

def whole? (s : String) : Option Whole := do
  let (base, cs) := digits s.toList
  let ds := cs.takeWhile (isDigitOf base)
  if ds.isEmpty then none
  let (isUnsigned, longs) ← suffix? (cs.drop ds.length)
  return ⟨value base ds, base = 10, isUnsigned, longs⟩

/-- The type of an integer: the first one that holds its value. -/
def Whole.type (w : Whole) : Integer :=
  let longs : List Integer := if w.longs ≤ 1 then [.long] else [.longLong]
  let signed : List Integer := (if w.longs = 0 then [.int] else []) ++ longs
  let types : List Integer :=
    if w.isUnsigned then signed.map Integer.unsigned
    else if w.isDecimal then signed
    else signed.flatMap fun k => [k, k.unsigned]
  match types.find? (·.holds w.value) with
  | some k => k
  | none => if w.isDecimal && !w.isUnsigned then .int128 else .unsignedLong

/-- An exponent: a sign and digits. -/
def exponent? (cs : List Char) : Option Int :=
  let (isNegative, ds) := match cs with
    | '-' :: ds => (true, ds)
    | '+' :: ds => (false, ds)
    | ds => (false, ds)
  if ds.isEmpty || !ds.all Char.isDigit then none
  else
    let n : Int := value 10 ds
    some (if isNegative then -n else n)

/-- The type that the letters after a fraction say. -/
def fractionSuffix? (cs : List Char) : Option Fraction :=
  match String.ofList (cs.map Char.toLower) with
  | "" | "d" => some .double
  | "f" => some .float
  | "l" | "w" => some .extended
  | "q" => some .quad
  | _ => none

/-- The fraction with given digits in front of a power. Powers beyond all values count like the
nearest one that is. -/
def scientific (k : Fraction) (mantissa : Nat) (power : Int) : Float :=
  let length : Int := (Nat.toDigits 10 mantissa).length
  if mantissa = 0 || power + length < -400 then 0
  else if 400 < power + length then 1 / 0
  else
    let isNegative := power < 0
    match k with
    | .float => (OfScientific.ofScientific mantissa isNegative power.natAbs : Float32).toFloat
    | _ => OfScientific.ofScientific mantissa isNegative power.natAbs

/-- The digits around a point, and what follows them. -/
def pointed (base : Nat) (cs : List Char) : List Char × List Char × List Char :=
  let front := cs.takeWhile (isDigitOf base)
  match cs.drop front.length with
  | '.' :: rest =>
    let back := rest.takeWhile (isDigitOf base)
    (front, back, rest.drop back.length)
  | rest => (front, [], rest)

def splitExponent (cs : List Char) : List Char × List Char :=
  let (sign, rest) := match cs with
    | '-' :: rest => (['-'], rest)
    | '+' :: rest => (['+'], rest)
    | rest => ([], rest)
  (sign ++ rest.takeWhile Char.isDigit, rest.dropWhile Char.isDigit)

def fraction? (s : String) : Option (Float × Fraction) :=
  match s.toList with
  | '0' :: x :: cs =>
    if x == 'x' || x == 'X' then
      let (front, back, rest) := pointed 16 cs
      match rest with
      | p :: power =>
        if (p == 'p' || p == 'P') && !(front.isEmpty && back.isEmpty) then do
          let (power, letters) := splitExponent power
          let k ← fractionSuffix? letters
          let e ← exponent? power
          let mantissa := value 16 (front ++ back)
          return (k.round ((Float.ofNat mantissa).scaleB (e - 4 * back.length)), k)
        else none
      | [] => none
    else decimal ('0' :: x :: cs)
  | cs => decimal cs
where
  /-- A fraction in the base ten. -/
  decimal (cs : List Char) : Option (Float × Fraction) :=
    let (front, back, rest) := pointed 10 cs
    let mantissa := value 10 (front ++ back)
    if front.isEmpty && back.isEmpty then none
    else match rest with
      | e :: power =>
        if e == 'e' || e == 'E' then do
          let (power, letters) := splitExponent power
          let k ← fractionSuffix? letters
          return (scientific k mantissa ((← exponent? power) - back.length), k)
        else if cs.contains '.' then do
          let k ← fractionSuffix? rest
          return (scientific k mantissa (-(back.length : Int)), k)
        else none
      | [] => if cs.contains '.' then some (scientific .double mantissa (-(back.length : Int)), .double) else none

/-- The value of the character after a backslash that stands for one character. -/
def simpleEscape? : Char → Option Nat
  | 'n' => some 10
  | 't' => some 9
  | 'r' => some 13
  | 'a' => some 7
  | 'b' => some 8
  | 'f' => some 12
  | 'v' => some 11
  | 'e' | 'E' => some 27
  | c => if ['\\', '\'', '"', '?'].contains c then some c.toNat else none

/-- A unit of a literal: a number that was written out, or a character. -/
inductive Piece where
  | number (n : Nat)
  | char (c : Char)
deriving DecidableEq, Repr, Inhabited

/-- The pieces of what stands between quotes, last one first. The fuel bounds their number. -/
def piecesOf (fuel : Nat) (done : List Piece) (cs : List Char) : Option (List Piece) :=
  match fuel, cs with
  | 0, _ | _, [] => some done
  | fuel + 1, '\\' :: c :: cs =>
    if c == 'x' then
      let ds := cs.takeWhile (isDigitOf 16)
      if ds.isEmpty then none else piecesOf fuel (.number (value 16 ds) :: done) (cs.drop ds.length)
    else if isDigitOf 8 c then
      let ds := c :: (cs.take 2).takeWhile (isDigitOf 8)
      piecesOf fuel (.number (value 8 ds) :: done) (cs.drop (ds.length - 1))
    else if c == 'u' || c == 'U' then
      let n := if c == 'u' then 4 else 8
      let ds := (cs.take n).takeWhile (isDigitOf 16)
      if ds.length ≠ n then none
      else piecesOf fuel (.char (Char.ofNat (value 16 ds)) :: done) (cs.drop n)
    else
      let piece := match simpleEscape? c with
        | some n => Piece.number n
        | none => .char c
      piecesOf fuel (piece :: done) cs
  | fuel + 1, c :: cs => piecesOf fuel (.char c :: done) cs

/-- The pieces of what stands between quotes. -/
def pieces? (s : String) : Option (List Piece) :=
  (piecesOf s.length [] s.toList).map List.reverse

/-- The numbers of a piece in a literal with elements of a width. -/
def Piece.units (bytes : Nat) : Piece → List Nat
  | .number n => [n % Nat.pow 2 (8 * bytes)]
  | .char c =>
    if bytes = 1 then (String.ofList [c]).toUTF8.toList.map UInt8.toNat
    else if bytes = 2 && 0xffff < c.toNat then
      let n := c.toNat - 0x10000
      [0xd800 + n / 0x400, 0xdc00 + n % 0x400]
    else [c.toNat]

def elementType : String → Integer
  | "L" => .int
  | "u" => .unsignedShort
  | "U" => .unsignedInt
  | _ => .char

/-- The value of a character, with its type. Several characters make one number. -/
def character? (encoding inside : String) : Option (Int × Integer) := do
  let k := elementType encoding
  let units := (← pieces? inside).flatMap (·.units k.bytes)
  if units.isEmpty then none
  else if k = .char then
    let n : Nat := units.foldl (fun n u => (256 * n + u) % Nat.pow 2 32) 0
    return (if units.length = 1 then Integer.char.wrap n else Integer.int.wrap n, .int)
  else return (k.wrap (units.getLastD 0 : Nat), k)

def elements? (k : Integer) (insides : List String) : Option (List Nat) := do
  return ((← insides.mapM pieces?).flatMap id).flatMap (·.units k.bytes)

end Literal

end LoopNest.Compiler
