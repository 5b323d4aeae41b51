import LoopNest.Scalar

/-!
# Kinds of expression nodes
-/

namespace LoopNest

inductive NodeKind where
  | invalid
  /-- Reads a named tensor. -/
  | identifier
  /-- A scalar literal. -/
  | constant
  /-- The elementwise operations between tensors of one shape. -/
  | add
  | sub
  | mul
  | div
  /-- Multiplies a tensor, the second operand, by a scalar, the first. -/
  | scalarMul
  /-- Divides a tensor, the first operand, by a scalar, the second. -/
  | scalarDiv
  | product
  /-- Sums over pairs of axes of two tensors. -/
  | contraction
  /-- Packs tensors of one shape along a new leading axis. -/
  | stack
  /-- Swaps pairs of axes of a tensor. -/
  | transposition
  /-- A kind outside the list. -/
  | unknown
deriving DecidableEq, Repr, Inhabited

namespace NodeKind

/-- The kinds in the order of their codes. -/
def all : List NodeKind :=
  [.invalid, .identifier, .constant, .add, .sub, .mul, .div, .scalarMul, .scalarDiv, .product,
    .contraction, .stack, .transposition]

def ofCode (code : Nat) : NodeKind := all[code]?.getD .unknown

def name : NodeKind → String
  | .invalid => "invalid"
  | .identifier => "identifier"
  | .constant => "constant"
  | .add => "add"
  | .sub => "sub"
  | .mul => "mul"
  | .div => "div"
  | .scalarMul => "scalar mul"
  | .scalarDiv => "scalar div"
  | .product => "product"
  | .contraction => "contraction"
  | .stack => "stack"
  | .transposition => "transposition"
  | .unknown => "unknown kind"

def ofName? (s : String) : Option NodeKind := (all ++ [NodeKind.unknown]).find? fun k => k.name == s

/-- Combines two tensors element by element. -/
def isElementwise : NodeKind → Bool
  | .add | .sub | .mul | .div => true
  | _ => false

/-- Combines a tensor and a scalar. -/
def isScalar : NodeKind → Bool
  | .scalarMul | .scalarDiv => true
  | _ => false

/-- Has no operands. -/
def isLeaf : NodeKind → Bool
  | .identifier | .constant => true
  | _ => false

/-- Operands are not indexed like the result. -/
def permutes : NodeKind → Bool
  | .product | .contraction | .stack | .transposition => true
  | _ => false

def arith? : NodeKind → Option ArithOp
  | .add => some .add
  | .sub => some .sub
  | .mul | .scalarMul | .product => some .mul
  | .div | .scalarDiv => some .div
  | _ => none

/-- The sign of the arithmetic, or a question mark. -/
def operator (k : NodeKind) : String := (k.arith?.map ArithOp.sign).getD "?"

end NodeKind

end LoopNest
