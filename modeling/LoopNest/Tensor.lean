import LoopNest.Data.OrderedMap
import LoopNest.Index.Shape
import LoopNest.Scalar
import LoopNest.Symbol

/-!
# Dense tensors

A tensor is a shape with its elements in row-major order, and a memory holds tensors by name.
-/

namespace LoopNest

/-- The most bytes that one array can take. -/
def arrayBytes : Nat := 281474976710656

/-- Whether an array can hold a number of elements of a size given in bytes. -/
def holdsElements (bytes : Nat) (count : Int) : Bool :=
  0 ≤ count && count.toNat * bytes ≤ arrayBytes

/-- A shape and its elements in row-major order. -/
structure Tensor (α : Type u) where
  dims : Shape
  data : Array α
deriving Inhabited, Repr, DecidableEq

namespace Tensor

/-- The tensor of zeros, with elements of eight bytes. There is none when the element count is
negative or more than an array can hold. -/
def zeros [Zero α] (dims : Shape) : Option (Tensor α) :=
  if holdsElements 8 dims.size then some ⟨dims, Array.replicate dims.size.toNat 0⟩ else none

def offset (t : Tensor α) (idx : List Int) : Option Int := rowMajor t.dims idx

def get? (t : Tensor α) (idx : List Int) : Option α := do
  let o ← t.offset idx
  if o < 0 then none else t.data[o.toNat]?

/-- The tensor with another element at an index. -/
def set? (t : Tensor α) (idx : List Int) (v : α) : Option (Tensor α) := do
  let o ← t.offset idx
  if 0 ≤ o ∧ o < t.data.size then some { t with data := t.data.setIfInBounds o.toNat v } else none

/-- The tensor whose element at each index is given by `f`. -/
def tabulate [Zero α] (dims : Shape) (f : List Int → Option α) : Option (Tensor α) := do
  let t ← zeros dims
  forEach dims (fun idx t => do t.set? idx (← f idx)) t

/-- The elements in row-major order. -/
def flat (t : Tensor α) : List α := t.data.toList

end Tensor

abbrev Memory (α : Type u) := OrderedMap String (Tensor α)

/-- The values given to some tensors, in row-major order. -/
abbrev Inputs (α : Type u) := List (String × List α)

/-- The message for an input whose values do not fill its shape. -/
def inputCountMessage (name : String) (given : Nat) (shape : String) (wanted : Nat) : String :=
  s!"input {name} has {given} values but its shape {shape} requires {wanted} values"

end LoopNest
