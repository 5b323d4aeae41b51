import LoopNest.Index.Shape
import LoopNest.Tensor
import LoopNest.Typed.Validate

/-!
# Whole-tensor evaluation

The reference meaning of a typed program: each statement evaluates its whole expression, then
writes the result to its destination through the swaps of the destination.
-/

namespace LoopNest.Typed

variable {α : Type} [Scalar α]

/-- Combines two elements; the scalar of a scalar operation comes first. -/
def applyOp : NodeKind → α → α → Option α
  | .add, x, y => some (x + y)
  | .sub, x, y => some (x - y)
  | .mul, x, y | .scalarMul, x, y => some (x * y)
  | .div, x, y => some (x / y)
  | .scalarDiv, s, x => some (x / s)
  | _, _, _ => none

/-- Combines the elements of two tensors at the same positions. -/
def zipTensors (op : NodeKind) (x y : Tensor α) : Option (Tensor α) := do
  let data ← (x.data.toList.zip y.data.toList).mapM fun (a, b) => applyOp op a b
  if data.length = x.data.size then some ⟨x.dims, data.toArray⟩ else none

/-- Combines a scalar with every element of a tensor. -/
def scaleTensor (op : NodeKind) (s x : Tensor α) : Option (Tensor α) := do
  let v ← s.data[0]?
  let data ← x.data.toList.mapM (applyOp op v)
  some ⟨x.dims, data.toArray⟩

/-- A tensor of a given shape with given elements, which must fill it. There is none when an array
cannot hold them. -/
def fillTensor (dims : Shape) (data : List α) : Option (Tensor α) :=
  if holdsElements 8 dims.size ∧ dims.size = data.length then some ⟨dims, data.toArray⟩ else none

def outerTensor (x y : Tensor α) : Option (Tensor α) :=
  fillTensor (x.dims ++ y.dims) (x.data.toList.flatMap fun a => y.data.toList.map (a * ·))

/-- One element of a contraction: the sum, over the contracted indices in row-major order, of the
products of the operands. -/
def contractAt (x : Tensor α) (xAxes : List Int) (y : Tensor α) (yAxes : List Int)
    (idx : List Int) : Option α := do
  let summed ← xAxes.mapM (at? x.dims)
  forEach summed (fun k sum => do
    let (xIdx, free) ← interleave x.dims.rank xAxes idx k
    let (yIdx, _) ← interleave y.dims.rank yAxes free k
    return sum + (← x.get? xIdx) * (← y.get? yIdx)) 0

def contractTensor (x : Tensor α) (xAxes : List Int) (y : Tensor α) (yAxes : List Int) :
    Option (Tensor α) :=
  Tensor.tabulate (x.dims.remove xAxes ++ y.dims.remove yAxes) (contractAt x xAxes y yAxes)

/-- Tensors of one shape along a new leading axis. -/
def stackTensors : List (Tensor α) → Option (Tensor α)
  | [] => none
  | t :: ts =>
    fillTensor (((ts.length + 1 : Nat) : Int) :: t.dims) ((t :: ts).flatMap Tensor.flat)

/-- The tensor with its axes swapped. -/
def transposeTensor (x : Tensor α) (pairs : List Swap) : Option (Tensor α) := do
  let dims ← x.dims.permute pairs
  Tensor.tabulate dims fun idx => do x.get? (← backward pairs idx)

mutual
def Expr.eval (mem : Memory α) : Expr → Option (Tensor α)
  | .missing => none
  | .ident name _ => mem.get? name
  | .const v => some ⟨[], #[Scalar.literal v]⟩
  | .binary op x y => do zipTensors op (← x.eval mem) (← y.eval mem)
  | .scale op s x => do scaleTensor op (← s.eval mem) (← x.eval mem)
  | .product x y => do outerTensor (← x.eval mem) (← y.eval mem)
  | .contract x xAxes y yAxes => do contractTensor (← x.eval mem) xAxes (← y.eval mem) yAxes
  | .stack members => do stackTensors (← Expr.evalAll mem members)
  | .transpose x pairs => do transposeTensor (← x.eval mem) pairs
  | .shared _ e => e.eval mem

/-- The values of several expressions. -/
def Expr.evalAll (mem : Memory α) : List Expr → Option (List (Tensor α))
  | [] => some []
  | e :: es => do return (← e.eval mem) :: (← Expr.evalAll mem es)
end

/-- Writes a value to a tensor through swaps of its axes. -/
def writeThrough (perm : List Swap) (value dst : Tensor α) : Option (Tensor α) :=
  forEach value.dims (fun idx dst => do
    dst.set? (← backward perm idx) (← value.get? idx)) dst

def Stmt.eval (mem : Memory α) (s : Stmt) : Option (Memory α) := do
  let value ← s.expr.eval mem
  mem.change? s.dst (writeThrough s.perm value)

/-- The declared tensors, zero or with their given values. -/
def initialMemory (inputs : Inputs α) : List Symbol → Memory α → Except Failure (Memory α)
  | [], mem => .ok mem
  | d :: ds, mem => do
    let t ← orFault (Tensor.zeros d.shape)
    match inputs.lookup d.name with
    | none => initialMemory inputs ds (mem.insert d.name t)
    | some vals =>
      if vals.length ≠ t.data.size then
        throw (.error (.cause (inputCountMessage d.name vals.length d.shape.render t.data.size)))
      initialMemory inputs ds (mem.insert d.name ⟨d.shape, vals.toArray⟩)

/-- Runs statements one after the other. -/
def evalStmts (mem : Memory α) : List Stmt → Option (Memory α)
  | [] => some mem
  | s :: rest => do evalStmts (← s.eval mem) rest

/-- The contents of all declared tensors after a program has run on the given inputs. -/
def eval (p : Program) (inputs : Inputs α) : Except Failure (Memory α) := do
  match validate p with
  | .error e => throw (.error e.diagnostic)
  | .ok () =>
    let mem ← initialMemory inputs p.decls {}
    orFault (evalStmts mem p.stmts)

end LoopNest.Typed
