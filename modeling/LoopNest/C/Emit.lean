import LoopNest.C.Function
import LoopNest.Pass.Fuse

/-!
# Code generation

Writes the loops of an assignment program. A loop is opened when its index is first used, by the
reads of an assignment and then by its write; operands that are not leaves get temporaries at the
depth that is open when they have been computed. All loops of an assignment are closed before the
next one, except the loop that all assignments share.
-/

namespace LoopNest.C

/-- An open loop with the statements that are already in its body. -/
structure Frame where
  index : String
  extent : Int
  body : List Stmt := []

/-- The code written so far. -/
structure Writer where
  /-- The open loops, innermost first. -/
  frames : List Frame := []
  /-- The statements outside all open loops. -/
  done : List Stmt := []
  extents : List (String × Int) := []
  nextIndex : Nat := 0
  nextSum : Nat := 0
  nextTemp : Nat := 0
  /-- The index of the flat loop while an assignment is computed by one. -/
  flat : Option String := none
deriving Inhabited

namespace Writer

/-- Adds a statement to the innermost open loop. -/
def write (w : Writer) (s : Stmt) : Writer :=
  match w.frames with
  | [] => { w with done := w.done ++ [s] }
  | f :: fs => { w with frames := { f with body := f.body ++ [s] } :: fs }

def openLoop (w : Writer) (index : String) (extent : Int) : Writer :=
  { w with frames := { index, extent } :: w.frames, extents := (index, extent) :: w.extents }

/-- Closes the innermost open loop. -/
def closeLoop (w : Writer) : Writer :=
  match w.frames with
  | [] => w
  | f :: fs => { w with frames := fs }.write (.loop f.index f.extent f.body)

/-- Closes `n` loops. -/
def closeLoops (w : Writer) : Nat → Writer
  | 0 => w
  | n + 1 => w.closeLoop.closeLoops n

/-- Closes loops until `depth` of them are open. -/
def closeTo (w : Writer) (depth : Nat) : Writer := w.closeLoops (w.frames.length - depth)

def isOpen (w : Writer) (index : String) : Bool := w.frames.any (·.index == index)

/-- The extent of an index, zero when it has none. -/
def extentOf (w : Writer) (index : String) : Int := (w.extents.lookup index).getD 0

end Writer

/-- The loop that an index needs: a position does not need one unless it is negative. -/
def Index.loopName? : Index → Option String
  | .loop name => some name
  | .fixed k => if k < 0 then some (toString k) else none

/-- Opens the loops that are needed and not open yet, in order. A flat loop is enough by
itself. -/
def Writer.ensure (w : Writer) (indices : List Index) : Writer :=
  if w.flat.isSome then w
  else
    indices.foldl (fun w i =>
      match i.loopName? with
      | none => w
      | some name => if w.isOpen name then w else w.openLoop name (w.extentOf name)) w

/-- The row-major position: each further index is added to the position so far times its extent. -/
def rowOffset (acc : Offset) : List Index → List Int → Option Offset
  | [], _ => some acc
  | _ :: _, [] => none
  | i :: is, d :: ds => rowOffset (.step i d acc) is ds

/-- The column-major position: each index is added to its extent times the position of the
others. -/
def columnOffset (i : Index) : List Index → List Int → Option Offset
  | [], _ => some (.index i)
  | _ :: _, [] => none
  | j :: js, d :: ds => do return .step i d (← columnOffset j js ds)

/-- The position of an element of a tensor. -/
def offsetOf (layout : Layout) (sub : List Index) (dims : Shape) : Option Offset :=
  match layout, sub, dims with
  | _, [], _ => some (.index (.fixed 0))
  | .rowMajor, i :: is, dims => rowOffset (.index i) is dims.tail
  | .columnMajor, i :: is, dims => columnOffset i is dims

/-- Writing code, which may fail. -/
abbrev Emit := StateT Writer (Except Failure)

namespace Emit

/-- A fault when there is no result. -/
def demand (o : Option β) : Emit β := fun w => (orFault o).map (·, w)

def fail (text : String) : Emit β := fun _ => .error (.error (.internalError text))

def write (s : Stmt) : Emit Unit := modify (·.write s)

/-- The element of an identifier at the given indices of its axes. -/
def access (p : Program) (layout : Layout) (n : Node) (own : List Index) : Emit Element := do
  match p.storedShape? n with
  | none => fail s!"undeclared tensor {n.name}"
  | some stored =>
    let sub ← demand (n.subscript .fixed own)
    modify (·.ensure sub)
    match (← get).flat, sub with
    | some index, _ :: _ => return ⟨n.name, .index (.loop index)⟩
    | _, _ => return ⟨n.name, ← demand (offsetOf layout sub stored)⟩

/-- The value of an operand, in a temporary unless it is a leaf. -/
def operand (leaf : Bool) (value : Emit Expr) : Emit Expr := do
  let v ← value
  if leaf then return v
  let n := (← get).nextTemp
  modify fun w => { w with nextTemp := n + 1 }
  write (.declare n v)
  return .temp n

/-- The value of an operand by its position. -/
def operandAt (operands : List Tree) (values : List (List Index → Emit Expr))
    (indices : List (List Index)) (k : Nat) : Emit Expr := do
  let t ← demand operands[k]?
  let value ← demand values[k]?
  let idx ← demand indices[k]?
  operand ((t.label?.map (·.kind.isLeaf)).getD false) (value idx)

/-- The value of a node, given those of its operands. -/
def node (p : Program) (layout : Layout) (id : NodeId) (n : Node) (operands : List Tree)
    (values : List (List Index → Emit Expr)) (idx : List Index) : Emit Expr :=
  match n.kind with
  | .identifier => do return .element (← access p layout n idx)
  | .constant => return .literal n.value
  | .contraction | .stack | .transposition => do
    let text ← demand (p.renderExpr id)
    fail (s!"unexpected {n.kind.name} node " ++ text)
  | kind =>
    match kind.arith? with
    | none => fail s!"invalid node kind {kind.name}"
    | some op => do
      let indices ← demand (n.operandIndices (operands.map Tree.rank?) idx [])
      let x ← operandAt operands values indices 0
      let y ← operandAt operands values indices 1
      return .arith op x y

mutual
def tree (p : Program) (layout : Layout) : Tree → List Index → Emit Expr
  | .missing, _ => demand none
  | .node id n ts, idx => node p layout id n ts (trees p layout ts) idx

/-- The values of several expressions, each as a function of its indices. -/
def trees (p : Program) (layout : Layout) : List Tree → List (List Index → Emit Expr)
  | [] => []
  | t :: ts => tree p layout t :: trees p layout ts
end

def sharedIndex : String := "f0"

/-- Names the axes of a result from position `i` on; the axis of the shared loop has its name. -/
def resultIndices (fuseAxis : Option Nat) (i : Nat) : Shape → Emit (List Index)
  | [] => return []
  | d :: ds => do
    if fuseAxis = some i then return .loop sharedIndex :: (← resultIndices fuseAxis (i + 1) ds)
    else
      let name := s!"i{(← get).nextIndex}"
      modify fun w => { w with nextIndex := w.nextIndex + 1, extents := (name, d) :: w.extents }
      return .loop name :: (← resultIndices fuseAxis (i + 1) ds)

/-- Opens one loop per contracted pair of axes. -/
def openSums (x : Node) : List Int → Emit (List Index)
  | [] => return []
  | ax :: rest => do
    let name := s!"k{(← get).nextSum}"
    modify fun w => { w with nextSum := w.nextSum + 1 }
    let extent ← demand (at? x.shape ax)
    modify (·.openLoop name extent)
    return .loop name :: (← openSums x rest)

/-- Writes an assignment whose root is a contraction: the destination is cleared, then the
products are added to it. -/
def contraction (p : Program) (layout : Layout) (dst : Node) (n : Node) (operands : List Tree)
    (result : List Index) : Emit Unit := do
  modify (·.ensure result)
  let lhs ← access p layout dst result
  write (.clear lhs)
  let x ← demand (operands[0]?.bind Tree.label?)
  let sums ← openSums x n.lhsAxes
  let indices ← demand (n.operandIndices (operands.map Tree.rank?) result sums)
  let values := trees p layout operands
  let xv ← operandAt operands values indices 0
  let yv ← operandAt operands values indices 1
  write (.accumulate lhs xv yv)

/-- Writes the loops and the store of an assignment. -/
def body (p : Program) (layout : Layout) (dst : Node) (expr : Tree) (result : List Index) :
    Emit Unit :=
  match expr with
  | .missing => demand none
  | .node id n ts => do
    if n.kind = .contraction then contraction p layout dst n ts result
    else
      let value ← tree p layout (.node id n ts) result
      let lhs ← access p layout dst result
      write (.store lhs value)

/-- Opens the flat loop of an assignment that can be computed by one. -/
def openFlat (p : Program) (opts : EmitOptions) (a : Assignment) (dst : Node)
    (result : List Index) : Emit Unit := do
  if opts.coalesce && opts.layout = .rowMajor then
    if ← demand (Pass.coalescible p a) then
      match result with
      | .loop index :: _ =>
        modify fun w => { w.openLoop index dst.shape.size with flat := some index }
      | _ => demand none

/-- Writes an assignment. A tensor assigned to itself needs no code. -/
def assignment (p : Program) (opts : EmitOptions) (a : Assignment) : Emit Unit := do
  let depth := (← get).frames.length
  let dst ← demand (p.dst? a)
  let root ← demand (p.node? a.expr)
  let result ← resultIndices a.fuseAxis 0 dst.shape
  if root.kind = .identifier && root.name == dst.name then
    if root.fixed = dst.fixed ∧ root.perm = dst.perm then return ()
    let text ← demand (p.renderAssignment a)
    fail (text ++ " reads its own storage with a different mapping")
  else
    openFlat p opts a dst result
    body p opts.layout dst (p.tree a.expr) result
    modify fun w => { w.closeTo depth with flat := none }

/-- Writes assignments from position `i` on. -/
def assignments (p : Program) (opts : EmitOptions) (i : Nat) : List Assignment → Emit Unit
  | [] => return ()
  | a :: rest => do
    let name := ((p.dst? a).map (·.name)).getD ""
    fun w => do
      let (_, w) ← inContext (.statement i name) (assignment p opts a w)
      assignments p opts (i + 1) rest w

/-- Writes all assignments, in the shared loop if there is one. -/
def program (p : Program) (opts : EmitOptions) : Emit (List Stmt) := do
  if let some extent := p.fusion then modify (·.openLoop sharedIndex extent)
  assignments p opts 0 p.assignments
  modify (·.closeTo 0)
  return (← get).done

end Emit

def function (p : Program) (opts : EmitOptions) (element : String) : Except Failure Function := do
  let (body, _) ← Emit.program p opts {}
  let written := p.assignments.filterMap fun a => (p.dst? a).map (·.name)
  let buffers := p.symbols.buffers.filter fun s => written.contains s.name
  return {
    name := if opts.funcName.isEmpty then "tensorc_" ++ p.name else opts.funcName
    element
    layout := opts.layout
    params := p.symbols.formals.map (·.name)
    buffers := buffers.map fun s => (s.name, s.shape.size)
    body }

def emitFunction (p : Program) (opts : EmitOptions) : Except Failure Function :=
  let dtype := opts.element
  match dtype.cType? with
  | none => .error (.error (.internalError s!"data type {dtype.name} not supported"))
  | some element => function p opts element

def emit (p : Program) (opts : EmitOptions) : Except Failure Code := do
  let f ← emitFunction p opts
  return {
    source := f.render
    funcName := f.name
    entry := f.entry
    formals := p.symbols.formals.map Formal.ofSymbol
    dtype := opts.element
    function := some f }

end LoopNest.C
