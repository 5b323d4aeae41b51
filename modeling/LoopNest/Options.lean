import LoopNest.Diagnostic

/-!
# Element types and layouts
-/

namespace LoopNest

/-- A data type of elements. `unset` leaves the choice to the emitter. -/
inductive ElementType where
  | unset
  | bool
  | int
  | int32
  | int64
  | uint32
  | uint64
  | bfloat16
  | float32
  | float64
  /-- A number that stands for no type. -/
  | other (code : Nat)
deriving DecidableEq, Repr, Inhabited

namespace ElementType

/-- The types in the order of their codes. -/
def all : List ElementType :=
  [.unset, .bool, .int, .int32, .int64, .uint32, .uint64, .bfloat16, .float32, .float64]

def ofCode (code : Nat) : ElementType := all[code]?.getD (.other code)

def code : ElementType → Nat
  | .unset => 0
  | .bool => 1
  | .int => 2
  | .int32 => 3
  | .int64 => 4
  | .uint32 => 5
  | .uint64 => 6
  | .bfloat16 => 7
  | .float32 => 8
  | .float64 => 9
  | .other code => code

/-- The name of a type. The machine-dependent integer has none of its own. -/
def name : ElementType → String
  | .unset | .int | .other _ => "invalid"
  | .bool => "bool"
  | .int32 => "int32"
  | .int64 => "int64"
  | .uint32 => "uint32"
  | .uint64 => "uint64"
  | .bfloat16 => "bfloat16"
  | .float32 => "float32"
  | .float64 => "float64"

/-- The C type of a type that kernels can work with. -/
def cType? : ElementType → Option String
  | .float32 => some "float"
  | .float64 => some "double"
  | _ => none

/-- The size in bytes of an element that kernels can work with. -/
def bytes : ElementType → Nat
  | .float32 => 4
  | _ => 8

end ElementType

/-- The order of the elements of a tensor in memory. -/
inductive Layout where
  | rowMajor
  /-- The first axis is contiguous. -/
  | columnMajor
deriving DecidableEq, Repr, Inhabited

def Layout.name : Layout → String
  | .rowMajor => "row"
  | .columnMajor => "column"

/-- How code is written. -/
structure EmitOptions where
  /-- The name of the function; when it is empty, one is made from the name of the program. -/
  funcName : String := ""
  layout : Layout := .rowMajor
  dtype : ElementType := .unset
  /-- Use one flat loop where whole tensors are read and written in order. -/
  coalesce : Bool := false
deriving Inhabited

/-- The element type that code is written for, which is double precision unless one is set. -/
def EmitOptions.element (opts : EmitOptions) : ElementType :=
  if opts.dtype = .unset then .float64 else opts.dtype

end LoopNest
