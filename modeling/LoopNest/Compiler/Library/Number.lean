import LoopNest.Compiler.Library.Basic
import LoopNest.Compiler.Literal

/-!
# Numbers

Functions that read numbers out of strings, divide, count bits, give pseudorandom numbers, and take
fractions apart.
-/

namespace LoopNest.Compiler.Library

/-- The characters without blanks in front of them, and the number of these blanks. -/
def unblanked (cs : List Char) : List Char × Nat :=
  let isSpace (c : Char) : Bool := c = ' ' || (9 ≤ c.toNat && c.toNat ≤ 13)
  (cs.dropWhile isSpace, (cs.takeWhile isSpace).length)

/-- Whether a number has a negative sign in front of it, and what follows the sign. -/
def unsigned : List Char → Bool × List Char × Nat
  | '-' :: cs => (true, cs, 1)
  | '+' :: cs => (false, cs, 1)
  | cs => (false, cs, 0)

def digitValue (c : Char) : Nat :=
  if c.isDigit then c.toNat - '0'.toNat else if c.isAlpha then c.toLower.toNat - 'a'.toNat + 10 else 99

/-- The integer at the start of some characters, and the number of characters that it takes. -/
def wholeOf (base : Nat) (cs : List Char) : Int × Nat :=
  let (rest, blanks) := unblanked cs
  let (isNegative, rest, signs) := unsigned rest
  let isHex := match rest with
    | '0' :: x :: d :: _ => (x = 'x' || x = 'X') && digitValue d < 16 && (base = 0 || base = 16)
    | _ => false
  let base := if base ≠ 0 then base else if isHex then 16 else if rest.head? = some '0' then 8 else 10
  let rest := if isHex then rest.drop 2 else rest
  let digits := rest.takeWhile fun c => digitValue c < base
  let n : Nat := digits.foldl (fun n c => base * n + digitValue c) 0
  if digits.isEmpty then (0, 0)
  else (if isNegative then -n else n, blanks + signs + (if isHex then 2 else 0) + digits.length)

/-- The words for fractions without digits. -/
def specialWords : List (List Char × Float) :=
  [("infinity".toList, 1 / 0), ("inf".toList, 1 / 0), ("nan".toList, 0 / 0)]

/-- The exponent at the start of some characters, and the number of characters that it takes. -/
def exponentAt (mark : Char) : List Char → Int × Nat
  | c :: cs =>
    let (isNegative, rest, signs) := unsigned cs
    let digits := rest.takeWhile Char.isDigit
    if c.toLower ≠ mark || digits.isEmpty then (0, 0)
    else
      let n : Nat := Literal.value 10 digits
      (if isNegative then -n else n, 1 + signs + digits.length)
  | [] => (0, 0)

/-- The fraction at the start of some characters, and the number of characters that it takes. -/
def fractionOf (k : Fraction) (cs : List Char) : Float × Nat :=
  let (rest, blanks) := unblanked cs
  let (isNegative, rest, signs) := unsigned rest
  let signed (v : Float) (n : Nat) : Float × Nat := (if isNegative then -v else v, blanks + signs + n)
  let isHex := match rest with
    | '0' :: x :: d :: _ => (x = 'x' || x = 'X') && (Literal.isDigitOf 16 d || d = '.')
    | _ => false
  let base := if isHex then 16 else 10
  let start := if isHex then rest.drop 2 else rest
  let front := start.takeWhile (Literal.isDigitOf base)
  let (back, hasPoint) := match start.drop front.length with
    | '.' :: more => (more.takeWhile (Literal.isDigitOf base), true)
    | _ => ([], false)
  let length := front.length + back.length + (if hasPoint then 1 else 0)
  if front.isEmpty && back.isEmpty then
    match specialWords.find? fun (w, _) => w.isPrefixOf (rest.map Char.toLower) with
    | some (w, v) => signed v w.length
    | none => (0, 0)
  else
    let mantissa := Literal.value base (front ++ back)
    let (e, more) := exponentAt (if isHex then 'p' else 'e') (start.drop length)
    if isHex then
      signed (k.round ((Float.ofNat mantissa).scaleB (e - 4 * back.length))) (2 + length + more)
    else signed (Literal.scientific k mantissa (e - back.length)) (length + more)

/-- Reads a number out of a string and stores where it ends. -/
def readNumber (read : List Char → Value × Nat) (address stop : Int) : Run Value := do
  let (v, n) := read (charsOf (← stringAt address))
  if stop ≠ 0 then Run.store Cell.pointer stop (.integer (address + n))
  return v

/-- An integer within the bounds of a type. -/
def clamped (low high v : Int) : Int := max low (min high v)

def readLong (isSigned : Bool) (base : Nat) (cs : List Char) : Value × Nat :=
  let (v, n) := wholeOf base cs
  let v := if isSigned then clamped (-Nat.pow 2 63) (Nat.pow 2 63 - 1) v
    else if Nat.pow 2 64 ≤ (v.natAbs : Int) then Nat.pow 2 64 - 1 else Integer.unsignedLong.wrap v
  (.integer v, n)

def readFraction (k : Fraction) (cs : List Char) : Value × Nat :=
  let (v, n) := fractionOf k cs
  (.fraction v, n)

/-- The functions that read numbers, by name. -/
def readers : List (String × Handler) :=
  let long (name : String) (isSigned : Bool) : String × Handler := (name, ofIntegers fun
    | [a, stop, base] => readNumber (readLong isSigned base.toNat) a stop
    | _ => Run.fault)
  let fraction (name : String) (k : Fraction) : String × Handler := (name, ofIntegers fun
    | [a, stop] => readNumber (readFraction k) a stop
    | _ => Run.fault)
  [long "strtol" true, long "strtoll" true, long "strtoul" false, long "strtoull" false,
    long "__isoc23_strtol" true, fraction "strtod" .double, fraction "strtof" .float,
    fraction "strtold" .extended,
    ("atoi", ofIntegers fun
      | [a] => do
        match ← readNumber (readLong true 10) a 0 with
        | .integer v => given (Integer.int.wrap v)
        | _ => Run.fault
      | _ => Run.fault),
    ("atol", ofIntegers fun
      | [a] => readNumber (readLong true 10) a 0
      | _ => Run.fault),
    ("atoll", ofIntegers fun
      | [a] => readNumber (readLong true 10) a 0
      | _ => Run.fault),
    ("atof", ofIntegers fun
      | [a] => readNumber (readFraction .double) a 0
      | _ => Run.fault)]

/-- Quotient and remainder as the members of a structure. -/
def quotientBlock (k : Integer) (x y : Int) : Run Value := do
  if y = 0 then Run.fault
  else
    let b := Memory.zeros (2 * k.bytes)
    let b := Memory.setWord b 0 (Memory.toWord (x.tdiv y)) k.bytes
    return .block (Memory.setWord b k.bytes (Memory.toWord (x.tmod y)) k.bytes)

/-- The bits of an integer of a width, lowest one first. -/
def bitsOf (width : Nat) (v : Int) : List Bool :=
  let n := (Integer.wrapBits false width v).toNat
  (List.range width).map n.testBit

/-- The number of bits in front of the highest one. -/
def leadingZeros (width : Nat) (v : Int) : Int :=
  ((bitsOf width v).reverse.takeWhile (· == false)).length

/-- The number of bits below the lowest one. -/
def trailingZeros (width : Nat) (v : Int) : Int := ((bitsOf width v).takeWhile (· == false)).length

def bitCount (width : Nat) (v : Int) : Int := ((bitsOf width v).filter id).length

/-- The bytes of an integer in the other order. -/
def swapped (n : Nat) (v : Int) : Int :=
  ((List.range n).foldl (fun (acc, rest) _ => (acc * 256 + rest % 256, rest / 256))
    (0, (Integer.wrapBits false (8 * n) v).toNat)).1

def integers : List (String × Handler) :=
  let widths : List (String × Nat) := [("", 32), ("l", 64), ("ll", 64)]
  let divide (name : String) (k : Integer) : String × Handler := (name, ofIntegers fun
    | [x, y] => quotientBlock k x y
    | _ => Run.fault)
  [("abs", pureInteger fun v => Integer.int.wrap v.natAbs),
    ("labs", pureInteger fun v => Integer.long.wrap v.natAbs),
    ("llabs", pureInteger fun v => Integer.long.wrap v.natAbs),
    ("imaxabs", pureInteger fun v => Integer.long.wrap v.natAbs), divide "div" .int,
    divide "ldiv" .long, divide "lldiv" .long, divide "imaxdiv" .long,
    ("__builtin_bswap16", pureInteger (swapped 2)), ("__builtin_bswap32", pureInteger (swapped 4)),
    ("__builtin_bswap64", pureInteger (swapped 8)),
    ("__builtin_clrsb", pureInteger fun v =>
      leadingZeros 32 (if v < 0 then -v - 1 else v) - 1),
    ("__builtin_expect", pureInteger id),
    ("__builtin_expect_with_probability", pureInteger id),
    ("__builtin_assume_aligned", pureInteger id),
    ("__builtin_object_size", ofIntegers fun
      | [_, kind] => given (if kind < 2 then Nat.pow 2 64 - 1 else 0)
      | _ => Run.fault)]
    ++ widths.flatMap fun (suffix, width) =>
      let first (v : Int) : Int := if v = 0 then 0 else trailingZeros width v + 1
      [("__builtin_popcount" ++ suffix, pureInteger (bitCount width)),
        ("__builtin_parity" ++ suffix, pureInteger fun v => bitCount width v % 2),
        ("__builtin_clz" ++ suffix, pureInteger (leadingZeros width)),
        ("__builtin_ctz" ++ suffix, pureInteger (trailingZeros width)),
        ("__builtin_ffs" ++ suffix, pureInteger first), ("ffs" ++ suffix, pureInteger first)]

/-- The state of the generator of pseudorandom numbers after a start. -/
def seeded (seed : Int) : Array UInt32 :=
  let seed := Integer.unsignedInt.wrap seed
  let first : Int := if seed = 0 then 1 else Integer.int.wrap seed
  let start := (List.range 30).foldl (fun (acc : Array Int) _ =>
    let r := acc.back?.getD 0
    let hi := r.tdiv 127773
    let lo := r.tmod 127773
    let next := 16807 * lo - 2836 * hi
    acc.push (if next < 0 then next + 2147483647 else next)) #[first]
  let words := start.map fun (v : Int) => (Integer.unsignedInt.wrap v).toNat.toUInt32
  (List.range 310).foldl (fun acc _ => (stepped acc).2) (words.extract 3 31 ++ words.extract 0 3)
where
  /-- The next word, and the state after it. -/
  stepped (state : Array UInt32) : UInt32 × Array UInt32 :=
    let next := state.getD 0 0 + state.getD 28 0
    (next, (state.extract 1 31).push next)

def nextRandom : Run Value := do
  let state := (← get).random
  let state := if state.isEmpty then seeded 1 else state
  let (word, state) := seeded.stepped state
  modify fun p => { p with random := state }
  given (word >>> 1).toNat

/-- Starts the generator of pseudorandom numbers. -/
def seedRandom : List Int → Run Value
  | [seed] => do
    modify fun p => { p with random := seeded seed }
    return .nothing
  | _ => Run.fault

/-- The functions of pseudorandom numbers by name. -/
def randoms : List (String × Handler) :=
  [("rand", ofIntegers fun _ => nextRandom), ("random", ofIntegers fun _ => nextRandom),
    ("srand", ofIntegers seedRandom), ("srandom", ofIntegers seedRandom)]

/-- The exponent of two of a fraction that is not zero. -/
def exponentOf (v : Float) : Int :=
  let (m, e) := Mathematics.parts v
  m.log2 + e

/-- A fraction between one half and one, and the power of two that it is multiplied by. -/
def fractionAndExponent (v : Float) : Float × Int :=
  if v == 0 || v.isNaN || v.isInf then (v, 0)
  else
    let e := exponentOf v + 1
    (v.scaleB (-e), e)

/-- The functions on fractions that also take or give something else, by name without the letter of
the type. -/
def mixed (k : Fraction) : List (String × (List Value → Run Value)) :=
  let scale : List Value → Run Value := fun
    | [.fraction v, .integer n] =>
      return .fraction (k.round (v.scaleB (clamped (-5000) 5000 n)))
    | _ => Run.fault
  let toLong (f : Float → Float) : List Value → Run Value := fun
    | [.fraction v] => return .integer (Integer.long.ofFraction (f v))
    | _ => Run.fault
  [("ldexp", scale), ("scalbn", scale), ("scalbln", scale),
    ("frexp", fun
      | [.fraction v, .integer a] => do
        let (m, e) := fractionAndExponent v
        Run.store (.integer .int) a (.integer e)
        return .fraction m
      | _ => Run.fault),
    ("modf", fun
      | [.fraction v, .integer a] => do
        let whole := Mathematics.truncate v
        Run.store (.fraction k) a (.fraction whole)
        return .fraction (Mathematics.copySign (if v.isInf then 0 else v - whole) v)
      | _ => Run.fault),
    ("sincos", fun
      | [.fraction v, .integer a, .integer b] => do
        Run.store (.fraction k) a (.fraction (k.round v.sin))
        Run.store (.fraction k) b (.fraction (k.round v.cos))
        return .nothing
      | _ => Run.fault),
    ("ilogb", fun
      | [.fraction v] =>
        return .integer (if v == 0 || v.isNaN then -2147483648 else if v.isInf then 2147483647
          else exponentOf v)
      | _ => Run.fault),
    ("logb", fun
      | [.fraction v] =>
        return .fraction (if v == 0 then -1 / 0 else if v.isInf then v.abs else if v.isNaN then v
          else Float.ofInt (exponentOf v))
      | _ => Run.fault),
    ("lround", toLong Float.round), ("llround", toLong Float.round),
    ("lrint", toLong Mathematics.roundEven), ("llrint", toLong Mathematics.roundEven),
    ("fma", fun
      | [.fraction x, .fraction y, .fraction z] =>
        return .fraction (Mathematics.multiplyAdd k x y z)
      | _ => Run.fault),
    ("remquo", fun
      | [.fraction x, .fraction y, .integer a] => do
        let q := Mathematics.roundEven (x / y)
        let n := wholePart (Mathematics.remainder q 8)
        Run.store (.integer .int) a (.integer n)
        return .fraction ((Mathematics.value? "remainder" [x, y]).getD (0 / 0))
      | _ => Run.fault),
    ("nexttoward", fun
      | [.fraction x, .fraction y] => return .fraction (Mathematics.nextAfter x y)
      | _ => Run.fault),
    ("nan", fun _ => return .fraction (0 / 0)),
    ("finite", fun
      | [.fraction v] => return .integer (truthValue v.isFinite)
      | _ => Run.fault),
    ("isnan", fun
      | [.fraction v] => return .integer (truthValue v.isNaN)
      | _ => Run.fault),
    ("isinf", fun
      | [.fraction v] => return .integer (if v.isInf then (if v < 0 then -1 else 1) else 0)
      | _ => Run.fault)]

def integerPower (v : Float) (n : Int) : Float :=
  let magnitude := (List.range 32).foldl (fun (acc, square) i =>
    (if n.natAbs.testBit i then acc * square else acc, square * square)) ((1 : Float), v)
  if n < 0 then 1 / magnitude.1 else magnitude.1

def fractions : List (String × Handler) :=
  let types : List (String × Fraction) := [("", .double), ("f", .float), ("l", .extended)]
  types.flatMap fun (suffix, k) =>
    (mixed k).map (fun (name, f) => (name ++ suffix, fun _ args => f args))
      ++ [("__builtin_inf" ++ suffix, fun _ _ => return .fraction (1 / 0)),
        ("__builtin_huge_val" ++ suffix, fun _ _ => return .fraction (1 / 0)),
        ("__builtin_nan" ++ suffix, fun _ _ => return .fraction (0 / 0)),
        ("__builtin_powi" ++ suffix, fun _ args => match args with
          | [.fraction v, .integer n] => return .fraction (k.round (integerPower v n))
          | _ => Run.fault)]

end LoopNest.Compiler.Library
