import LoopNest.Compiler.Value

/-!
# Functions of the mathematics library

The functions on fractions by their names. The name of a function on shorter or longer fractions has
one more letter, and its value is rounded to that type.
-/

namespace LoopNest.Compiler.Mathematics

/-- A fraction as an integer times a power of two, without its sign. -/
def parts (v : Float) : Nat × Int :=
  let bits := v.toBits.toNat
  let exponent : Nat := bits / Nat.pow 2 52 % Nat.pow 2 11
  if exponent = 0 then (bits % Nat.pow 2 52, -1074)
  else (bits % Nat.pow 2 52 + Nat.pow 2 52, (exponent : Int) - 1075)

def isNegative (v : Float) : Bool := Nat.pow 2 63 ≤ v.toBits.toNat

/-- A fraction with the sign of another one. -/
def copySign (x y : Float) : Float :=
  let magnitude := x.toBits.toNat % Nat.pow 2 63
  Float.ofBits (UInt64.ofNat (magnitude + (if isNegative y then Nat.pow 2 63 else 0)))

/-- The fraction without what follows the point. -/
def truncate (v : Float) : Float := if isNegative v then copySign v.ceil v else v.floor

/-- The nearest integer; of two at the same distance the even one. -/
def roundEven (v : Float) : Float :=
  let below := v.floor
  let rest := v - below
  let isOdd := below / 2 != (below / 2).floor
  let nearest := if rest < 0.5 then below else if 0.5 < rest then below + 1
    else if isOdd then below + 1 else below
  if v.isNaN || v.isInf || 4503599627370496 ≤ v.abs then v else copySign nearest v

/-- What a division with an integer quotient leaves, with the sign of the dividend. -/
def remainder (x y : Float) : Float :=
  if x.isNaN || y.isNaN || x.isInf || y == 0 then 0 / 0
  else if y.isInf then x
  else
    let (m, e) := parts x
    let (n, f) := parts y
    let least := min e f
    let left := m * Nat.pow 2 (e - least).toNat % (n * Nat.pow 2 (f - least).toNat)
    copySign ((Float.ofNat left).scaleB least) x

/-- An integer divided by another one, rounded to the nearest integer; of two at the same distance
the even one is taken. -/
def nearestQuotient (n d : Nat) : Nat :=
  let q := n / d
  let twice := 2 * (n % d)
  if d < twice || (twice = d && q % 2 = 1) then q + 1 else q

/-- The nearest fraction of a type to an integer times a power of two. -/
def nearestFraction (k : Fraction) (m : Nat) (e : Int) : Float :=
  let (digits, least) : Nat × Int := match k with
    | .float => (24, -149)
    | _ => (53, -1074)
  if m = 0 then 0
  else
    let extra : Int := max ((m.log2 : Int) + 1 - digits) (least - e)
    let q := if 0 ≤ extra then nearestQuotient m (Nat.pow 2 extra.toNat) else m * Nat.pow 2 (-extra).toNat
    k.round ((Float.ofNat q).scaleB (e + extra))

/-- The product of two fractions plus a third one, rounded once. -/
def multiplyAdd (k : Fraction) (x y z : Float) : Float :=
  if !(x.isFinite && y.isFinite && z.isFinite) || x == 0 || y == 0 || z == 0 then x * y + z
  else
    let signed (v : Float) (m : Nat) : Int := if isNegative v then -(m : Int) else m
    let (m, e) := parts x
    let (n, f) := parts y
    let (o, g) := parts z
    let least := min (e + f) g
    let sum := signed x m * signed y n * Nat.pow 2 (e + f - least).toNat
      + signed z o * Nat.pow 2 (g - least).toNat
    let magnitude := nearestFraction k sum.natAbs least
    if sum < 0 then -magnitude else magnitude

/-- The integer part of a square root. -/
def rootOf (n : Nat) : Nat :=
  let step (r : Nat) : Nat := (r + n / r) / 2
  let start := Nat.pow 2 (n.log2 / 2 + 1)
  if n = 0 then 0
  else (List.range (n.log2 + 2)).foldl (fun r _ => if step r < r then step r else r) start

/-- The length of the longest side of a triangle with a right angle. -/
def hypotenuse (x y : Float) : Float :=
  if x.isInf || y.isInf then 1 / 0
  else if x.isNaN || y.isNaN then 0 / 0
  else
    let (m, e) := parts x
    let (n, f) := parts y
    let least := min e f
    let a := m * Nat.pow 2 (e - least).toNat
    let b := n * Nat.pow 2 (f - least).toNat
    let square := a * a + b * b
    let root := rootOf (square * Nat.pow 4 64)
    let root := 2 * root + (if root * root = square * Nat.pow 4 64 then 0 else 1)
    nearestFraction .double root (least - 65)

/-- The larger of two fractions; one that is no number does not count. -/
def larger (x y : Float) : Float := if x.isNaN then y else if y.isNaN then x else if x < y then y else x

/-- The smaller of two fractions; one that is no number does not count. -/
def smaller (x y : Float) : Float := if x.isNaN then y else if y.isNaN then x else if y < x then y else x

def difference (x y : Float) : Float := if x.isNaN || y.isNaN then x + y else if y < x then x - y else 0

/-- The fraction after another one on the way to a third one. -/
def nextAfter (x y : Float) : Float :=
  if x.isNaN || y.isNaN then x + y
  else if x == y then y
  else if x == 0 then copySign (Float.ofBits 1) y
  else
    let grows := (x < y) != isNegative x
    Float.ofBits (if grows then x.toBits + 1 else x.toBits - 1)

/-- The exponential less one, also near zero. -/
def exponentialLessOne (x : Float) : Float :=
  let u := x.exp
  if u == 1 then x
  else if u.isInf || u == 0 || x.isNaN || 1 ≤ x.abs then u - 1
  else (u - 1) * x / u.log

/-- The logarithm of a fraction and one, also near zero. -/
def logarithmOfNext (x : Float) : Float :=
  let u := 1 + x
  if u == 1 then x
  else if u.isInf || u ≤ 0 || x.isNaN then u.log
  else u.log * x / (u - 1)

def unary? : String → Option (Float → Float)
  | "sin" => some Float.sin
  | "cos" => some Float.cos
  | "tan" => some Float.tan
  | "asin" => some Float.asin
  | "acos" => some Float.acos
  | "atan" => some Float.atan
  | "sinh" => some Float.sinh
  | "cosh" => some Float.cosh
  | "tanh" => some Float.tanh
  | "asinh" => some Float.asinh
  | "acosh" => some Float.acosh
  | "atanh" => some Float.atanh
  | "exp" => some Float.exp
  | "exp2" => some Float.exp2
  | "expm1" => some exponentialLessOne
  | "log" => some Float.log
  | "log2" => some Float.log2
  | "log10" => some Float.log10
  | "log1p" => some logarithmOfNext
  | "sqrt" => some Float.sqrt
  | "cbrt" => some Float.cbrt
  | "ceil" => some Float.ceil
  | "floor" => some Float.floor
  | "fabs" => some Float.abs
  | "round" => some Float.round
  | "trunc" => some truncate
  | "rint" | "nearbyint" => some roundEven
  | _ => none

/-- The functions of two fractions. -/
def binary? : String → Option (Float → Float → Float)
  | "pow" => some Float.pow
  | "atan2" => some Float.atan2
  | "fmod" => some remainder
  | "remainder" => some fun x y => if y.isInf && !x.isInf then x else x - y * roundEven (x / y)
  | "hypot" => some hypotenuse
  | "copysign" => some copySign
  | "nextafter" => some nextAfter
  | "fdim" => some difference
  | "fmax" => some larger
  | "fmin" => some smaller
  | _ => none

/-- The name of a function without the letter of its type, and the type. -/
def plainName (name : String) : String × Fraction :=
  let known (s : String) : Bool := (unary? s).isSome || (binary? s).isSome
  let shorter := String.ofList name.toList.dropLast
  if known name then (name, .double)
  else if name.endsWith "f" && known shorter then (shorter, .float)
  else if name.endsWith "l" && known shorter then (shorter, .extended)
  else (name, .double)

def value? (name : String) (args : List Float) : Option Float :=
  let (root, k) := plainName name
  match args with
  | [x] => (unary? root).map fun f => k.round (f x)
  | [x, y] => (binary? root).map fun f => k.round (f x y)
  | _ => none

end LoopNest.Compiler.Mathematics
