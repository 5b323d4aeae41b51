import LoopNest.Diagnostic
import LoopNest.IR.Access
import LoopNest.Tensor

/-!
# Element by element execution

Runs an assignment program the way the generated loops do: the elements of a result are computed
in the order of the loops, and each one is stored before the next is computed. A contraction at
the root of an assignment accumulates in its destination.
-/

namespace LoopNest

variable {α : Type} [Scalar α]

/-- What the tensors hold: the element of a tensor at a subscript, where there is one. This is all
that an expression needs to know of a memory. -/
abbrev Cells (α : Type) := String → List Int → Option α

def cellsOf (mem : Memory α) : Cells α := fun name sub => do (← mem.get? name).get? sub

/-- The element that an identifier reads. -/
def loadAt (cells : Cells α) (n : Node) (idx : List Int) : Option α := do
  cells n.name (← n.subscript id idx)

/-- Stores an element through an identifier. -/
def storeAt (mem : Memory α) (n : Node) (idx : List Int) (v : α) : Option (Memory α) := do
  let sub ← n.subscript id idx
  mem.change? n.name (·.set? sub v)

/-- The extents of the contracted indices, which are lengths of axes of the left operand. -/
def Node.contractedExtents (n : Node) (operands : List Tree) : Option (List Int) := do
  let x ← (← operands[0]?).label?
  n.lhsAxes.mapM (at? x.shape)

/-- The product of the operands of a contraction at given result and contracted indices. -/
def Node.termWith (n : Node) (operands : List Tree) (values : List (List Int → Option α))
    (result contracted : List Int) : Option α := do
  let ops ← n.operandIndices (operands.map Tree.rank?) result contracted
  let x ← (← values[0]?) (← ops[0]?)
  let y ← (← values[1]?) (← ops[1]?)
  return x * y

/-- The value of a node at an index, given the values of its operands. -/
def Node.evalWith (n : Node) (cells : Cells α) (operands : List Tree)
    (values : List (List Int → Option α)) (idx : List Int) : Option α :=
  match n.kind with
  | .identifier => loadAt cells n idx
  | .constant => some (Scalar.literal n.value)
  | .contraction => do
    let extents ← n.contractedExtents operands
    forEach extents (fun k sum => do return sum + (← n.termWith operands values idx k)) 0
  | .stack =>
    match idx with
    | [] => none
    | i :: idx => do (← at? values i) idx
  | .transposition => do (← values[0]?) (← backward n.pairs idx)
  | kind => do
    let op ← kind.arith?
    let ops ← n.operandIndices (operands.map Tree.rank?) idx []
    let x ← (← values[0]?) (← ops[0]?)
    let y ← (← values[1]?) (← ops[1]?)
    return op.eval x y

namespace Tree

mutual
/-- The value of an expression at an index of its result. -/
def eval (cells : Cells α) : Tree → List Int → Option α
  | .missing, _ => none
  | .node _ n ts, idx => n.evalWith cells ts (evalAll cells ts) idx

/-- The values of several expressions, each as a function of its index. -/
def evalAll (cells : Cells α) : List Tree → List (List Int → Option α)
  | [] => []
  | t :: ts => t.eval cells :: evalAll cells ts
end

end Tree

/-- Puts the value of each loop at the axis that the loop runs over. -/
def placeLoops (order : List Nat) (loops result : List Int) : List Int :=
  (order.zip loops).foldl (fun r (axis, i) => r.set axis i) result

namespace Program

/-- The axes of the result of an assignment in the order of their loops: the order in which the
reads and then the write first use them. A contraction at the root opens them in order. The axis
of the shared loop is left out. -/
def loopOrder (p : Program) (a : Assignment) : Option (List Nat) := do
  let dst ← p.dst? a
  let root ← p.node? a.expr
  let all := IndexName.results dst.shape.rank
  let used ←
    if root.kind = .contraction then some all
    else
      match ← p.accesses a with
      | [] => some all
      | write :: reads => some ((reads ++ [write]).flatMap (·.index) ++ all)
  return (used.filterMap IndexName.axis?).eraseDups.filter (some · ≠ a.fuseAxis)

/-- Computes and stores one element of an assignment. -/
def runElement (dst : Node) (expr : Tree) (result : List Int) (mem : Memory α) :
    Option (Memory α) :=
  match expr with
  | .missing => none
  | .node _ n ts =>
    if n.kind = .contraction then do
      let mem ← storeAt mem dst result 0
      let extents ← n.contractedExtents ts
      forEach extents (fun k mem => do
        let term ← n.termWith ts (Tree.evalAll (cellsOf mem) ts) result k
        storeAt mem dst result ((← loadAt (cellsOf mem) dst result) + term)) mem
    else do storeAt mem dst result (← expr.eval (cellsOf mem) result)

/-- Runs an assignment, the shared loop being at `fused`. -/
def runAssignment (p : Program) (a : Assignment) (fused : Int) (mem : Memory α) :
    Except Failure (Memory α) := do
  let dst ← orFault (p.dst? a)
  if !mem.contains dst.name then
    throw (.error (.internalError s!"undeclared destination {dst.name}"))
  orFault do
    let order ← p.loopOrder a
    let extents ← order.mapM (dst.shape[·]?)
    let start := List.replicate dst.shape.rank 0
    let start ←
      match a.fuseAxis with
      | none => some start
      | some axis => setAt? start axis fused
    let expr := p.tree a.expr
    forEach extents (fun loops mem => runElement dst expr (placeLoops order loops start) mem) mem

/-- Runs assignments from position `i` on. -/
def runAssignments (p : Program) (fused : Int) (i : Nat) :
    List Assignment → Memory α → Except Failure (Memory α)
  | [], mem => .ok mem
  | a :: rest, mem => do
    let mem ← inContext (.statement i (((p.dst? a).map (·.name)).getD "")) (p.runAssignment a fused mem)
    p.runAssignments fused (i + 1) rest mem

/-- Runs all assignments once for each value of the shared loop, `n` values from `f` on. -/
def runFused (p : Program) (n : Nat) (f : Int) (mem : Memory α) : Except Failure (Memory α) :=
  match n with
  | 0 => .ok mem
  | n + 1 => do p.runFused n (f + 1) (← p.runAssignments f 0 p.assignments mem)

/-- The declared tensors, zero or with the values given to inputs. -/
def initialMemory (inputs : Inputs α) : List Symbol → Memory α → Except Failure (Memory α)
  | [], mem => .ok mem
  | s :: rest, mem => do
    let t ← orFault (Tensor.zeros s.shape)
    match inputs.lookup s.name with
    | none => initialMemory inputs rest (mem.insert s.name t)
    | some vals =>
      if !s.role.isInput then
        throw (.error (.cause s!"{s.role.name} {s.name} cannot be given a value"))
      if vals.length ≠ t.data.size then
        throw (.error (.cause (inputCountMessage s.name vals.length s.shape.render t.data.size)))
      initialMemory inputs rest (mem.insert s.name ⟨s.shape, vals.toArray⟩)

/-- Runs the assignments of a program on a memory. Where no loop is shared, an assignment that is
bound to one is at the index `-1` of it. -/
def run (p : Program) (mem : Memory α) : Except Failure (Memory α) :=
  match p.fusion with
  | none => p.runAssignments (-1) 0 p.assignments mem
  | some extent => p.runFused extent.toNat 0 mem

/-- The contents of all tensors after a program has run on the given inputs. -/
def interpret (p : Program) (inputs : Inputs α) : Except Failure (Memory α) := do
  p.run (← initialMemory inputs p.symbols.all {})

end Program

end LoopNest
