/-!
# Scalars

The evaluators work over any type with a zero, the four arithmetic operations and a value for
each literal of a program. No law is asked of the operations.
-/

namespace LoopNest

/-- The arithmetic that the evaluators need. -/
class Scalar (α : Type u) extends Zero α, Add α, Sub α, Mul α, Div α where
  literal : Float → α

/-- Double precision. -/
instance : Scalar Float where
  zero := 0
  literal v := v

/-- The four arithmetic operations. -/
inductive ArithOp where
  | add
  | sub
  | mul
  | div
deriving DecidableEq, Repr, Inhabited

namespace ArithOp

def sign : ArithOp → String
  | .add => "+"
  | .sub => "-"
  | .mul => "*"
  | .div => "/"

def eval [Scalar α] : ArithOp → α → α → α
  | .add, x, y => x + y
  | .sub, x, y => x - y
  | .mul, x, y => x * y
  | .div, x, y => x / y

end ArithOp

end LoopNest
