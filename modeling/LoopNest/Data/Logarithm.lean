/-!
# Logarithms in double precision

The decimal logarithm of a number from one on, as it is computed in double precision. Every operation
rounds its result, so the order of the operations matters. A number is a fraction from a half to one,
times a power of two. The natural logarithm of the fraction is that of a number `1 + f` near one: with
`s = f / (2 + f)` it is `2 * s` and a polynomial in `s` that begins with the third power. It is computed
as `f` less a correction, which is small.
-/

namespace LoopNest.Logarithm

/-- The high part of the natural logarithm of two, which has zeros at its end. -/
def twoHigh : Float := 6.93147180369123816490e-01

/-- What the high part leaves of the natural logarithm of two. -/
def twoLow : Float := 1.90821492927058770002e-10

/-- The inverse of the natural logarithm of two. -/
def binaryScale : Float := 1.4426950408889634073599246810018921374266459541529859341354494069

/-- The decimal logarithm of two. -/
def decimalScale : Float := 0.30102999566398119521373889472449302676818988146210854131042746113

def halfRoot : Float := 0.70710678118654752440084436210484903928483593768847403658833986900

/-- The fraction from a half to one and the power of two that make up a positive number. -/
def split (x : Float) : Float × Int :=
  let bits := x.toBits.toNat
  let exponent : Nat := bits / 0x10000000000000 % 0x800
  (Float.ofBits (UInt64.ofNat (bits % 0x10000000000000 + 0x3fe0000000000000)), exponent - 1022)

/-- A small integer in double precision. -/
def ofInt (k : Int) : Float :=
  if k < 0 then -k.natAbs.toUInt64.toFloat else k.natAbs.toUInt64.toFloat

/-- The polynomial by which the logarithm differs from `2 * s`, divided by `s`, given the square of `s`.
Its terms of odd and of even degree are summed apart. -/
def tail (z : Float) : Float :=
  let w := z * z
  let odd := z * (6.666666666666735130e-01 + w * (2.857142874366239149e-01
    + w * (1.818357216161805012e-01 + w * 1.479819860511658591e-01)))
  let even := w * (3.999999999940941908e-01 + w * (2.222219843214978396e-01
    + w * 1.531383769920937332e-01))
  odd + even

/-- The natural logarithm of `1 + f` times a power of two, given `f` and the exponent. -/
def nearOne (f k : Float) : Float :=
  let s := f / (2 + f)
  let r := tail (s * s)
  let h := 0.5 * f * f
  k * twoHigh - ((h - (s * (h + r) + k * twoLow)) - f)

def natural (x : Float) : Float :=
  let (f, k) := split x
  if f < halfRoot then nearOne (2 * f - 1) (ofInt (k - 1)) else nearOne (f - 1) (ofInt k)

/-- The logarithm to base two; that of a power of two is not computed. -/
def binary (x : Float) : Float :=
  let (f, k) := split x
  if f == 0.5 then ofInt (k - 1) else natural f * binaryScale + ofInt k

def decimal (x : Float) : Float := binary x * decimalScale

end LoopNest.Logarithm
