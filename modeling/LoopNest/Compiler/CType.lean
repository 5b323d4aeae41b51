/-!
# Types of C

Numbers, pointers, arrays, functions and structures. A structure is known by its number in a table,
which also holds its members with their places. Two declarations of one name have to be of types
that agree.
-/

namespace LoopNest.Compiler

inductive Integer where
  | bool
  | char
  | signedChar
  | unsignedChar
  | short
  | unsignedShort
  | int
  | unsignedInt
  | long
  | unsignedLong
  | longLong
  | unsignedLongLong
  | int128
  | unsignedInt128
deriving DecidableEq, Repr, Inhabited

namespace Integer

def bytes : Integer → Nat
  | .bool | .char | .signedChar | .unsignedChar => 1
  | .short | .unsignedShort => 2
  | .int | .unsignedInt => 4
  | .long | .unsignedLong | .longLong | .unsignedLongLong => 8
  | .int128 | .unsignedInt128 => 16

def bits (k : Integer) : Nat := 8 * k.bytes

def isSigned : Integer → Bool
  | .char | .signedChar | .short | .int | .long | .longLong | .int128 => true
  | _ => false

/-- The place in the order in which integers are converted. -/
def rank : Integer → Nat
  | .bool => 0
  | .char | .signedChar | .unsignedChar => 1
  | .short | .unsignedShort => 2
  | .int | .unsignedInt => 3
  | .long | .unsignedLong => 4
  | .longLong | .unsignedLongLong => 5
  | .int128 | .unsignedInt128 => 6

/-- The type of the same width without negative values. -/
def unsigned : Integer → Integer
  | .char | .signedChar => .unsignedChar
  | .short => .unsignedShort
  | .int => .unsignedInt
  | .long => .unsignedLong
  | .longLong => .unsignedLongLong
  | .int128 => .unsignedInt128
  | k => k

/-- The type of the same width with negative values. -/
def signed : Integer → Integer
  | .char | .unsignedChar => .signedChar
  | .unsignedShort => .short
  | .unsignedInt => .int
  | .unsignedLong => .long
  | .unsignedLongLong => .longLong
  | .unsignedInt128 => .int128
  | k => k

/-- The type of a value in arithmetic. -/
def promoted (k : Integer) : Integer := if k.rank < Integer.int.rank then .int else k

/-- The type in which two values in arithmetic meet. -/
def common (a b : Integer) : Integer :=
  let a := a.promoted
  let b := b.promoted
  if a = b then a
  else if a.isSigned = b.isSigned then (if a.rank < b.rank then b else a)
  else
    let (s, u) := if a.isSigned then (a, b) else (b, a)
    if s.rank ≤ u.rank then u else if u.bits < s.bits then s else s.unsigned

/-- An integer modulo the number of values with some bits. -/
def wrapBits (isSigned : Bool) (bits : Nat) (v : Int) : Int :=
  let half : Int := Nat.pow 2 (bits - 1)
  if isSigned then
    if -half ≤ v && v < half then v else Int.bmod v (Nat.pow 2 bits)
  else if 0 ≤ v && v < 2 * half then v else Int.emod v (Nat.pow 2 bits)

/-- The value of a type that an integer is converted to. -/
def wrap (k : Integer) (v : Int) : Int :=
  match k with
  | .bool => if v = 0 then 0 else 1
  | .int => if -2147483648 ≤ v && v < 2147483648 then v else wrapBits true 32 v
  | k => wrapBits k.isSigned k.bits v

def holds (k : Integer) (v : Int) : Bool := k.wrap v == v

end Integer

inductive Fraction where
  | float
  | double
  | extended
  | quad
deriving DecidableEq, Repr, Inhabited

namespace Fraction

def bytes : Fraction → Nat
  | .float => 4
  | .double => 8
  | .extended | .quad => 16

/-- The place in the order in which fractions are converted. -/
def rank : Fraction → Nat
  | .float => 0
  | .double => 1
  | .extended => 2
  | .quad => 3

/-- The type in which two values meet. -/
def common (a b : Fraction) : Fraction := if a.rank < b.rank then b else a

/-- The value of a type that a fraction is converted to. The wider types have the values of the type
of doubles. -/
def round (k : Fraction) (v : Float) : Float :=
  match k with
  | .float => v.toFloat32.toFloat
  | _ => v

end Fraction

/-- What may be done with an object, beyond its type. -/
structure Quals where
  isConst : Bool := false
  isVolatile : Bool := false
  isRestrict : Bool := false
deriving DecidableEq, Repr, Inhabited

/-- All that two sets of words say. -/
def Quals.union (a b : Quals) : Quals :=
  ⟨a.isConst || b.isConst, a.isVolatile || b.isVolatile, a.isRestrict || b.isRestrict⟩

/-- The number of elements of an array. -/
inductive Extent where
  | missing
  | known (n : Nat)
  /-- The number is computed when the declaration is reached and kept at a place of the frame. -/
  | computed (place : Nat)
deriving DecidableEq, Repr, Inhabited

/-- A type. An open function leaves its parameters open. -/
inductive CType where
  | void
  | integer (k : Integer)
  | fraction (k : Fraction)
  | complex (k : Fraction)
  | enumeration (id : Nat) (k : Integer)
  | record (id : Nat)
  | pointer (quals : Quals) (target : CType)
  | array (quals : Quals) (element : CType) (extent : Extent)
  | function (result : CType) (isOpen : Bool) (params : List CType) (isVariadic : Bool)
deriving Inhabited

/-- A member of a structure. An integer that shares its bytes has the number of its first bit and
its width. -/
structure Member where
  name : Option String
  type : CType
  quals : Quals := {}
  offset : Nat := 0
  bits : Option (Nat × Nat) := none
deriving Inhabited

/-- A structure or a union. It has no members as long as only its tag is known. -/
structure Record where
  isUnion : Bool
  members : Option (List Member) := none
  size : Nat := 0
  align : Nat := 1
  /-- The last member is an array without a number of elements. -/
  isFlexible : Bool := false
  isPacked : Bool := false
  /-- A value of any member can be passed where the union is asked for. -/
  isTransparent : Bool := false
deriving Inhabited

/-- The structures by their numbers. -/
abbrev Records := Array Record

/-- What a place in memory holds. -/
inductive Cell where
  | nothing
  | integer (k : Integer)
  | fraction (k : Fraction)
  | block (size : Nat)
deriving DecidableEq, Repr, Inhabited

def Cell.pointer : Cell := .integer .unsignedLong

namespace CType

/-- The type of integers without further words. -/
def int : CType := .integer .int

/-- The type of fractions without further words. -/
def double : CType := .fraction .double

def size : CType := .integer .unsignedLong

def difference : CType := .integer .long

/-- A pointer to something that may be changed. -/
def pointerTo (t : CType) : CType := .pointer {} t

def char : CType := .integer .char

def isVoid : CType → Bool
  | .void => true
  | _ => false

def integer? : CType → Option Integer
  | .integer k | .enumeration _ k => some k
  | _ => none

def isInteger (t : CType) : Bool := t.integer?.isSome

def isReal : CType → Bool
  | .integer _ | .enumeration _ _ | .fraction _ => true
  | _ => false

def isComplex : CType → Bool
  | .complex _ => true
  | _ => false

def isNumber (t : CType) : Bool := t.isReal || t.isComplex

def isPointer : CType → Bool
  | .pointer _ _ => true
  | _ => false

def isFunction : CType → Bool
  | .function .. => true
  | _ => false

def isArray : CType → Bool
  | .array .. => true
  | _ => false

def isRecord : CType → Bool
  | .record _ => true
  | _ => false

/-- Whether a value of a type can be tested. -/
def isScalar (t : CType) : Bool := t.isNumber || t.isPointer

def target? : CType → Option (Quals × CType)
  | .pointer quals t => some (quals, t)
  | _ => none

/-- The type of a value of a type: an array gives a pointer to its first element, and a function a
pointer to itself. -/
def decayed : CType → CType
  | .array quals t _ => .pointer quals t
  | .function r o ps v => .pointer {} (.function r o ps v)
  | t => t

/-- The type of an argument beyond those that a function declares. -/
def promoted : CType → CType
  | .integer k => .integer k.promoted
  | .enumeration _ k => .integer k.promoted
  | .fraction .float => .fraction .double
  | t => t

/-- Whether a value passed without a declared parameter is of the type of the parameter. -/
def isPromoted : CType → Bool
  | .integer k | .enumeration _ k => k.promoted = k
  | .fraction k => k ≠ .float
  | _ => true

/-- The type in which two numbers meet. -/
def common : CType → CType → CType
  | .complex a, .complex b | .complex a, .fraction b | .fraction a, .complex b =>
    .complex (a.common b)
  | .complex a, _ | _, .complex a => .complex a
  | .fraction a, .fraction b => .fraction (a.common b)
  | .fraction a, _ | _, .fraction a => .fraction a
  | a, b => .integer ((a.integer?.getD .int).common (b.integer?.getD .int))

/-- Whether numbers of elements can be the same. -/
def extentsAgree : Extent → Extent → Bool
  | .known m, .known n => m = n
  | _, _ => true

mutual
/-- Whether two declarations of one name can be of these types. -/
def agrees : CType → CType → Bool
  | .void, .void => true
  | .integer a, .integer b => a = b
  | .fraction a, .fraction b | .complex a, .complex b => a = b
  | .enumeration a _, .enumeration b _ => a = b
  | .enumeration _ a, .integer b | .integer a, .enumeration _ b => a = b
  | .record a, .record b => a = b
  | .pointer p t, .pointer q u => p = q && agrees t u
  | .array p t m, .array q u n => p = q && agrees t u && extentsAgree m n
  | .function r false ps v, .function s false qs w => agrees r s && v = w && agreesAll ps qs
  | .function r true _ _, .function s true _ _ => agrees r s
  | .function r true _ _, .function s false ps v | .function r false ps v, .function s true _ _ =>
    agrees r s && !v && ps.all isPromoted
  | _, _ => false

def agreesAll : List CType → List CType → Bool
  | [], [] => true
  | t :: ts, u :: us => agrees t u && agreesAll ts us
  | _, _ => false
end

mutual
/-- What two declarations of one name say about its type. -/
def join : CType → CType → CType
  | .pointer p t, .pointer _ u => .pointer p (join t u)
  | .array p t .missing, .array _ u n => .array p (join t u) n
  | .array p t n, .array _ u _ => .array p (join t u) n
  | .function r true _ _, .function s false ps v => .function (join r s) false ps v
  | .function r false ps v, .function s false qs _ => .function (join r s) false (joinAll ps qs) v
  | .function r o ps v, .function s _ _ _ => .function (join r s) o ps v
  | t, _ => t

/-- What two declarations say about parameters. -/
def joinAll : List CType → List CType → List CType
  | t :: ts, u :: us => join t u :: joinAll ts us
  | ts, _ => ts
end

/-- Whether the number of elements is computed somewhere in a type. -/
def isVariable : CType → Bool
  | .array _ _ (.computed _) => true
  | .array _ t _ | .pointer _ t => t.isVariable
  | .function r .. => r.isVariable
  | _ => false

def hasComputedSize : CType → Bool
  | .array _ _ (.computed _) => true
  | .array _ t _ => t.hasComputedSize
  | _ => false

/-- Whether a type is an array without a number of elements. -/
def isOpenArray : CType → Bool
  | .array _ _ .missing => true
  | _ => false

def isComplete (rs : Records) : CType → Bool
  | .void | .function .. => false
  | .record id => (rs[id]?).any (·.members.isSome)
  | .array _ t n => n ≠ .missing && t.isComplete rs
  | _ => true

/-- The number of bytes of an object, as far as it is known. -/
def sizeOf (rs : Records) : CType → Nat
  | .void | .function .. => 1
  | .integer k | .enumeration _ k => k.bytes
  | .fraction k => k.bytes
  | .complex k => 2 * k.bytes
  | .record id => ((rs[id]?).map (·.size)).getD 0
  | .pointer _ _ => 8
  | .array _ t (.known n) => n * t.sizeOf rs
  | .array _ _ _ => 0

/-- What the address of an object is a multiple of. -/
def alignOf (rs : Records) : CType → Nat
  | .void | .function .. => 1
  | .integer k | .enumeration _ k => k.bytes
  | .fraction k | .complex k => k.bytes
  | .record id => ((rs[id]?).map (·.align)).getD 1
  | .pointer _ _ => 8
  | .array _ t _ => t.alignOf rs

def cell (rs : Records) (t : CType) : Cell :=
  match t with
  | .void => .nothing
  | .integer k | .enumeration _ k => .integer k
  | .fraction k => .fraction k
  | .pointer _ _ | .function .. => .pointer
  | .complex _ | .record _ | .array .. => .block (t.sizeOf rs)

/-- The type of the elements at the end of all arrays, with what may be done with them. -/
def innermost (quals : Quals) : CType → Quals × CType
  | .array q t _ => innermost q t
  | t => (quals, t)

/-- A type with more words about what may be done with its objects; those of an array are those of
its elements. -/
def qualified (more : Quals) : CType → CType
  | .array q t n =>
    match t with
    | .array .. => .array q (qualified more t) n
    | t => .array (q.union more) t n
  | t => t

end CType

/-- A number that is at least as large as given and a multiple of another one. -/
def roundUp (n align : Nat) : Nat := if align = 0 then n else (n + align - 1) / align * align

end LoopNest.Compiler
