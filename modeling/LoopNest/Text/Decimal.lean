/-!
# Decimal text of a double

A finite double is written with the fewest significant digits that read back as the same double,
the nearest such decimal to its value being taken. Exponents from -4 to 5 are written
positionally, the others in scientific notation with at least two exponent digits.
-/

namespace LoopNest.Decimal

/-- A positive double as `m * 2 ^ q`, and whether the gap below it is half the gap above it. -/
structure Binary where
  m : Nat
  q : Int
  lowerGapHalved : Bool

/-- The parts of a finite double, its sign left out. -/
def Binary.ofBits (bits : UInt64) : Binary :=
  let fraction : Nat := bits.toNat % Nat.pow 2 52
  let exponent : Nat := bits.toNat / Nat.pow 2 52 % Nat.pow 2 11
  if exponent = 0 then ⟨fraction, -1074, false⟩
  else ⟨fraction + Nat.pow 2 52, exponent - 1075, fraction == 0 && 1 < exponent⟩

/-- The reals that round to a double, as bounds over a common denominator. The bounds themselves
belong to it when the fraction is even. -/
structure Interval where
  low : Nat
  value : Nat
  high : Nat
  den : Nat
  closed : Bool

def Binary.interval (b : Binary) : Interval :=
  let num := if b.q - 2 < 0 then 1 else Nat.pow 2 (b.q - 2).toNat
  let den := if b.q - 2 < 0 then Nat.pow 2 (2 - b.q).toNat else 1
  { low := (4 * b.m - if b.lowerGapHalved then 1 else 2) * num
    value := 4 * b.m * num
    high := (4 * b.m + 2) * num
    den
    closed := b.m % 2 == 0 }

/-- The exponent of the leading decimal digit of a positive fraction. -/
def leadingExponent (num den : Nat) : Int :=
  if den ≤ num then (Nat.toDigits 10 (num / den)).length - 1
  else
    match (List.range 400).find? fun k => den ≤ num * Nat.pow 10 (k + 1) with
    | some k => -(k + 1)
    | none => -400

/-- Whether `c * 10 ^ e` rounds to the double. -/
def Interval.contains (i : Interval) (c : Nat) (e : Int) : Bool :=
  let x := if e < 0 then c else c * Nat.pow 10 e.toNat
  let scale := if e < 0 then Nat.pow 10 (-e).toNat else 1
  let v := x * i.den
  if i.closed then i.low * scale ≤ v && v ≤ i.high * scale
  else i.low * scale < v && v < i.high * scale

/-- The two neighbours of the value on the grid of multiples of `10 ^ e`, the lower one first, and
the comparison of the value with their midpoint. -/
def Interval.neighbours (i : Interval) (e : Int) : Nat × Ordering :=
  let num := if e < 0 then i.value * Nat.pow 10 (-e).toNat else i.value
  let den := if e < 0 then i.den else i.den * Nat.pow 10 e.toNat
  let c := num / den
  (c, compare (2 * num) ((2 * c + 1) * den))

/-- The decimal nearest to the value on the grid of multiples of `10 ^ e`, if one rounds to it. -/
def Interval.onGrid? (i : Interval) (e : Int) : Option Nat :=
  let (c, side) := i.neighbours e
  match i.contains c e, i.contains (c + 1) e with
  | true, true =>
    match side with
    | .lt => some c
    | .gt => some (c + 1)
    | .eq => some (if c % 2 = 0 then c else c + 1)
  | true, false => some c
  | false, true => some (c + 1)
  | false, false => none

/-- Significant digits and the exponent of the first of them. -/
structure Digits where
  digits : List Char
  exponent : Int

/-- The digits of `c * 10 ^ e` without trailing zeros. -/
def Digits.ofScaled (c : Nat) (e : Int) : Digits :=
  let ds := Nat.toDigits 10 c
  ⟨(ds.reverse.dropWhile (· == '0')).reverse, e + ds.length - 1⟩

/-- The fewest digits that read back as the double: one digit is tried first, then two, and
seventeen always suffice. -/
def shortest (b : Binary) : Digits :=
  let i := b.interval
  let top := leadingExponent i.value i.den
  let found := (List.range 17).findSome? fun (n : Nat) =>
    let e := top - n
    (i.onGrid? e).map fun c => Digits.ofScaled c e
  found.getD (Digits.ofScaled (i.neighbours (top - 16)).1 (top - 16))

/-- An exponent with its sign and at least two digits. -/
def renderExponent (x : Int) : String :=
  let digits := toString x.natAbs
  (if x < 0 then "-" else "+") ++ (if digits.length < 2 then "0" else "") ++ digits

/-- The digits in positional or scientific notation, as the exponent decides. -/
def Digits.render (d : Digits) : String :=
  let x := d.exponent
  if x < -4 || 6 ≤ x then
    let tail := d.digits.drop 1
    String.ofList (d.digits.take 1) ++ (if tail.isEmpty then "" else "." ++ String.ofList tail)
      ++ "e" ++ renderExponent x
  else if x < 0 then
    "0." ++ String.ofList (List.replicate (-x - 1).toNat '0' ++ d.digits)
  else
    let whole := x.toNat + 1
    let tail := d.digits.drop whole
    String.ofList (d.digits.take whole ++ List.replicate (whole - d.digits.length) '0')
      ++ (if tail.isEmpty then "" else "." ++ String.ofList tail)

def render (v : Float) : String :=
  if v.isNaN then "NaN"
  else
    let bits := v.toBits
    let negative := Nat.pow 2 63 ≤ bits.toNat
    if v.isInf then (if negative then "-Inf" else "+Inf")
    else
      let b := Binary.ofBits bits
      (if negative then "-" else "") ++ (if b.m = 0 then "0" else (shortest b).render)

end LoopNest.Decimal
