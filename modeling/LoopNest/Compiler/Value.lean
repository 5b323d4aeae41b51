import LoopNest.Compiler.Node

/-!
# Arithmetic of C

What operators give on integers and fractions of a kind, and how values are converted.
-/

namespace LoopNest.Compiler

/-- A value at run time. -/
inductive Value where
  | nothing
  | integer (v : Int)
  | fraction (v : Float)
  | block (bytes : ByteArray)
deriving Inhabited

/-- One for a condition that holds and zero for one that does not. -/
def truthValue (b : Bool) : Int := if b then 1 else 0

namespace Operator

/-- The value of an operator on the bits of two integers. -/
def bitwise (k : Integer) (f : Nat → Nat → Nat) (x y : Int) : Int :=
  let bits (v : Int) : Nat := if 0 ≤ v then v.toNat else (Integer.wrapBits false k.bits v).toNat
  k.wrap (f (bits x) (bits y) : Nat)

/-- The value of an operator on integers. A division by zero has none. -/
def onIntegers? (op : Operator) (k : Integer) (x y : Int) : Option Int :=
  match op with
  | .add => some (k.wrap (x + y))
  | .sub => some (k.wrap (x - y))
  | .mul => some (k.wrap (x * y))
  | .div => if y = 0 then none else some (k.wrap (x.tdiv y))
  | .mod => if y = 0 then none else some (k.wrap (x.tmod y))
  | .shiftLeft => some (k.wrap (x * Nat.pow 2 (y % k.bits).toNat))
  | .shiftRight => some (k.wrap (x / Nat.pow 2 (y % k.bits).toNat))
  | .and => some (bitwise k Nat.land x y)
  | .or => some (bitwise k Nat.lor x y)
  | .xor => some (bitwise k Nat.xor x y)
  | .lt => some (truthValue (x < y))
  | .le => some (truthValue (x ≤ y))
  | .gt => some (truthValue (x > y))
  | .ge => some (truthValue (x ≥ y))
  | .eq => some (truthValue (x == y))
  | .ne => some (truthValue (x != y))

def onFractions (op : Operator) (k : Fraction) (x y : Float) : Value :=
  match op with
  | .add => .fraction (k.round (x + y))
  | .sub => .fraction (k.round (x - y))
  | .mul => .fraction (k.round (x * y))
  | .div => .fraction (k.round (x / y))
  | .lt => .integer (truthValue (x < y))
  | .le => .integer (truthValue (x ≤ y))
  | .gt => .integer (truthValue (x > y))
  | .ge => .integer (truthValue (x ≥ y))
  | .eq => .integer (truthValue (x == y))
  | .ne => .integer (truthValue (x != y))
  | _ => .nothing

end Operator

/-- The integer part of a fraction. -/
def wholePart (v : Float) : Int :=
  let bits := v.toBits.toNat
  let exponent := bits / Nat.pow 2 52 % Nat.pow 2 11
  let mantissa := bits % Nat.pow 2 52 + Nat.pow 2 52
  let magnitude : Nat :=
    if exponent < 1023 then 0
    else if exponent < 1075 then mantissa / Nat.pow 2 (1075 - exponent)
    else mantissa * Nat.pow 2 (exponent - 1075)
  if Nat.pow 2 63 ≤ bits then -(magnitude : Int) else magnitude

/-- The integer of a type that a fraction is converted to. A value beyond the type gives the least
value of the width that it is computed in. -/
def Integer.ofFraction (k : Integer) (v : Float) : Int :=
  match k with
  | .bool => if v == 0 then 0 else 1
  | _ =>
    let least (bits : Nat) : Int := -(Nat.pow 2 (bits - 1))
    let n := if v.isNaN || v.isInf then least 256 else wholePart v
    match k.bytes, k.isSigned with
    | 8, false =>
      if 0 ≤ n && n < Nat.pow 2 64 then n
      else if -(Nat.pow 2 63) ≤ n && n < 0 then k.wrap n
      else Nat.pow 2 63
    | 8, true => if k.holds n then n else least 64
    | 4, true => if k.holds n then n else least 32
    | 4, false => if Integer.long.holds n then k.wrap n else 0
    | 16, _ => k.wrap n
    | _, _ => k.wrap (if Integer.int.holds n then n else least 32)

/-- The nearest fraction of a type to an integer; of two at the same distance the even one. -/
def Fraction.ofInteger (k : Fraction) (v : Int) : Float :=
  let near (m : Nat) : Float := match k with
    | .float => (Float32.ofNat m).toFloat
    | _ => Float.ofNat m
  if v < 0 then -(near v.natAbs) else near v.natAbs

namespace Value

def isTrue : Value → Bool
  | .integer v => v != 0
  | .fraction v => v != 0
  | _ => false

def convert (target : Cell) (v : Value) : Value :=
  match target, v with
  | .nothing, _ => .nothing
  | .integer k, .integer v => .integer (k.wrap v)
  | .integer k, .fraction v => .integer (k.ofFraction v)
  | .fraction k, .integer v => .fraction (k.ofInteger v)
  | .fraction k, .fraction v => .fraction (k.round v)
  | _, v => v

def operate? (op : Operator) (c : Cell) (x y : Value) : Option Value :=
  match c, x, y with
  | .integer k, .integer x, .integer y => (op.onIntegers? k x y).map .integer
  | .fraction k, .fraction x, .fraction y => some (op.onFractions k x y)
  | _, _, _ => none

end Value

end LoopNest.Compiler
