import LoopNest.C.Function
import LoopNest.Data.OrderedMap
import LoopNest.Index.Shape

/-!
# The meaning of kernels

Runs the statements of a kernel over arrays of elements. There is no result when a name that is
not in scope is read, an array is accessed outside its bounds, or an index or a position does not
fit in the type `int` that it is computed in. Whatever is stored, in an element or in a temporary,
first passes through `round`, the conversion to the type of the elements.
-/

namespace LoopNest.C

/-- The arrays by the names of their tensors. -/
abbrev Arrays (α : Type u) := OrderedMap String (Array α)

/-- The loop variables and the temporaries in scope. -/
structure Locals (α : Type u) where
  indices : List (String × Int) := []
  temps : List (Nat × α) := []

/-- A result of type `int`; there is none when it does not fit. -/
def int? (n : Int) : Option Int := if -0x80000000 ≤ n ∧ n < 0x80000000 then some n else none

def Index.eval (f : Locals α) : Index → Option Int
  | .loop name => f.indices.lookup name
  | .fixed k => some k

def Offset.eval (f : Locals α) : Offset → Option Int
  | .index i => i.eval f
  | .step i extent inner => do int? ((← i.eval f) + (← int? (extent * (← inner.eval f))))

def bounded? (a : Array α) (o : Int) : Option Nat := if 0 ≤ o ∧ o < a.size then some o.toNat else none

def Element.load (f : Locals α) (arrays : Arrays α) (e : Element) : Option α := do
  let a ← arrays.get? e.tensor
  a[← bounded? a (← e.offset.eval f)]?

def Element.store (f : Locals α) (arrays : Arrays α) (e : Element) (v : α) : Option (Arrays α) := do
  let o ← e.offset.eval f
  arrays.change? e.tensor fun a => do
    let i ← bounded? a o
    return a.setIfInBounds i v

section
variable [Scalar α]

def Expr.eval (f : Locals α) (arrays : Arrays α) : Expr → Option α
  | .literal v => some (Scalar.literal v)
  | .element e => e.load f arrays
  | .temp n => f.temps.lookup n
  | .arith op x y => do return op.eval (← x.eval f arrays) (← y.eval f arrays)

mutual
/-- Runs a statement. A temporary that it declares is in scope for the statements after it. -/
def Stmt.run (round : α → α) (f : Locals α) (arrays : Arrays α) : Stmt → Option (Locals α × Arrays α)
  | .loop index extent body => do
    let extent ← int? extent
    let arrays ← LoopNest.loop extent.toNat 0 (fun i arrays =>
      Stmt.runAll round { f with indices := (index, i) :: f.indices } arrays body) arrays
    return (f, arrays)
  | .declare temp value => do
    let v ← value.eval f arrays
    return ({ f with temps := (temp, round v) :: f.temps }, arrays)
  | .store dst value => do return (f, ← dst.store f arrays (round (← value.eval f arrays)))
  | .clear dst => do return (f, ← dst.store f arrays 0)
  | .accumulate dst x y => do
    let product := (← x.eval f arrays) * (← y.eval f arrays)
    return (f, ← dst.store f arrays (round ((← dst.load f arrays) + product)))

/-- Runs the statements of a block. Its temporaries go out of scope at its end. -/
def Stmt.runAll (round : α → α) (f : Locals α) (arrays : Arrays α) : List Stmt → Option (Arrays α)
  | [] => some arrays
  | s :: rest => do
    let (f, arrays) ← s.run round f arrays
    Stmt.runAll round f arrays rest
end

/-- The arrays at the start of a kernel: the arguments, and the allocated buffers with whatever
contents they have. -/
def startArrays (params : List String) (buffers : List (String × Int)) (contents : String → Nat → α)
    (args : List (Array α)) : Arrays α :=
  let buffers := buffers.map fun (tensor, size) =>
    (tensor, Array.ofFn fun (i : Fin size.toNat) => contents tensor i)
  ⟨params.zip args ++ buffers⟩

/-- Runs a kernel on its arguments; the result is the arguments afterwards. -/
def Function.run (round : α → α) (f : Function) (contents : String → Nat → α)
    (args : List (Array α)) : Option (List (Array α)) := do
  let arrays ← Stmt.runAll round {} (startArrays f.params f.buffers contents args) f.body
  f.params.mapM arrays.get?

end

end LoopNest.C
