import LoopNest.Compiler.CType

/-!
# Checked C code

The expressions and statements of a source after their types have been checked. Conversions are
written out, members and elements are addresses, and every operator names the kind of number that it
works on.
-/

namespace LoopNest.Compiler

inductive Operator where
  | add
  | sub
  | mul
  | div
  | mod
  | shiftLeft
  | shiftRight
  | and
  | or
  | xor
  | lt
  | le
  | gt
  | ge
  | eq
  | ne
deriving DecidableEq, Repr, Inhabited

namespace Operator

def ofMark? : String → Option Operator
  | "+" => some .add
  | "-" => some .sub
  | "*" => some .mul
  | "/" => some .div
  | "%" => some .mod
  | "<<" => some .shiftLeft
  | ">>" => some .shiftRight
  | "&" => some .and
  | "|" => some .or
  | "^" => some .xor
  | "<" => some .lt
  | "<=" => some .le
  | ">" => some .gt
  | ">=" => some .ge
  | "==" => some .eq
  | "!=" => some .ne
  | _ => none

def isComparison : Operator → Bool
  | .lt | .le | .gt | .ge | .eq | .ne => true
  | _ => false

/-- Whether an operator is for integers only. -/
def isBitwise : Operator → Bool
  | .mod | .shiftLeft | .shiftRight | .and | .or | .xor => true
  | _ => false

end Operator

/-- How the value at an address is read and written. -/
inductive Access where
  | whole (cell : Cell)
  /-- An integer of some bits among those of a larger one. -/
  | bits (unit : Integer) (first width : Nat)
deriving DecidableEq, Repr, Inhabited

/-- Questions about a fraction. -/
inductive Question where
  | isNaN
  | isInfinite
  /-- The sign of an infinity, and zero for everything else. -/
  | infiniteSign
  | isFinite
  | isNormal
  | isNegative
deriving DecidableEq, Repr, Inhabited

inductive Operation where
  /-- Makes all bytes of a block zero. -/
  | zero
  /-- Makes room that is there until the function ends. -/
  | allocate
  /-- Starts to read the arguments beyond the parameters. -/
  | startArguments
  | copyArguments
  | nextArgument
  /-- Stores an integer and tells whether it is too large for its place. -/
  | checked
  /-- Stores a value and gives the one before. -/
  | exchange
  /-- Chooses one of five integers by the class of a fraction. -/
  | classify
  | ask (question : Question)
  /-- Whether one of two fractions is no number. -/
  | unordered
  /-- Whether one of two fractions is less than the other one. -/
  | unequal
  | complex
  /-- A complex number whose parts are of another type. -/
  | recast
  | real
  | imaginary
  | complexOperator (op : Operator)
  | complexNegate
  | conjugate
  /-- Whether a complex number is not zero. -/
  | complexTruth
deriving DecidableEq, Repr, Inhabited

mutual
/-- An expression. Addresses are integers. -/
inductive Node where
  | integer (v : Int)
  | fraction (v : Float)
  /-- A place in the frame of the function, or of one around it. -/
  | frame (up offset : Nat)
  /-- An object that is always there, or a function. -/
  | symbol (id : Nat)
  | label (id : Nat)
  | load (access : Access) (address : Node)
  /-- Writes a value to an address, which is evaluated first if `isEarly` holds. -/
  | store (access : Access) (isEarly : Bool) (address value : Node)
  /-- Applies an operator of a kind of numbers to what is at an address and another operand. The
  value is the one before the change if `isPost` holds. -/
  | update (access : Access) (op : Operator) (cell : Cell) (isPost : Bool) (address operand : Node)
  | negate (cell : Cell) (x : Node)
  | complement (kind : Integer) (x : Node)
  | binary (op : Operator) (cell : Cell) (x y : Node)
  | convert (source target : Cell) (x : Node)
  | both (x y : Node)
  | either (x y : Node)
  | conditional (test x y : Node)
  | sequence (x y : Node)
  /-- Calls a function. The first arguments, as many as `fixed`, are for its parameters. -/
  | call (function : Node) (result : Cell) (fixed : Nat) (cells : List Cell) (args : List Node)
  | operation (op : Operation) (cells : List Cell) (args : List Node)
  /-- Runs statements in front of the value. -/
  | run (body : Stmt) (value : Node)

inductive Stmt where
  | expression (n : Node)
  | block (ss : List Stmt)
  | branch (test : Node) (yes no : Stmt)
  /-- Repeats a body as long as a test holds; the first time it is not asked if `isLate` holds. -/
  | loop (isLate : Bool) (test : Option Node) (step : Option Node) (body : Stmt)
  /-- Goes to the label of the range that a value is in. -/
  | select (value : Node) (ranges : List (Int × Int × Nat)) (other : Option Nat) (body : Stmt)
  | mark (label : Nat)
  | jump (label : Nat)
  | jumpTo (address : Node)
  | result (value : Option Node)
  | leave
  | next
end

instance : Inhabited Node := ⟨.integer 0⟩

instance : Inhabited Stmt := ⟨.block []⟩

/-- The code of a function: where its parameters are in its frame and what they hold. -/
structure FunctionCode where
  params : List (Nat × Cell) := []
  result : Cell := .nothing
  frameSize : Nat := 0
  isVariadic : Bool := false
  /-- The places of variables that are numbers or pointers. -/
  scalars : List Nat := []
  /-- The number of functions that it stands in, whose frames it can use. -/
  around : Nat := 0
  body : Stmt := .block []
deriving Inhabited

/-- A value that is known before the code runs: a number, or a distance from an object. -/
inductive Constant where
  | integer (v : Int)
  | fraction (v : Float)
  | address (symbol : Nat) (offset : Int)
  | label (id : Nat)
deriving Inhabited

namespace Node

/-- The number zero of a cell. -/
def zero : Cell → Node
  | .fraction _ => .fraction 0
  | _ => .integer 0

/-- Whether a value is not zero. -/
def truth (c : Cell) (x : Node) : Node := .binary .ne c x (zero c)

def shifted (address : Node) (offset : Nat) : Node :=
  if offset = 0 then address
  else match address with
    | .frame up base => .frame up (base + offset)
    | _ => .binary .add Cell.pointer address (.integer offset)

mutual
/-- Whether evaluating an expression changes something. -/
def changes : Node → Bool
  | .integer _ | .fraction _ | .frame _ _ | .symbol _ | .label _ => false
  | .load _ x | .negate _ x | .complement _ x | .convert _ _ x => x.changes
  | .binary _ _ x y | .both x y | .either x y => x.changes || y.changes
  | .conditional test x y => test.changes || x.changes || y.changes
  | .operation _ _ args => anyChanges args
  | _ => true

/-- Whether evaluating one of some expressions changes something. -/
def anyChanges : List Node → Bool
  | [] => false
  | n :: ns => n.changes || anyChanges ns
end

/-- Writes a value to an address. What the address changes comes first. -/
def storing (access : Access) (address value : Node) : Node :=
  .store access address.changes address value

def converted (source target : Cell) (x : Node) : Node :=
  if source = target then x else .convert source target x

end Node

end LoopNest.Compiler
