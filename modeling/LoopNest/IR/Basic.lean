import LoopNest.Data.NameSupply
import LoopNest.IR.Kind
import LoopNest.Symbol

/-!
# Assignment programs

A program is a list of assignments. The nodes of all expressions stand in one table and refer to
their operands by number, so that one node may be an operand of several others. Nodes are only
ever added to the table; an edit changes the operands of nodes and the list of assignments.

An operation on a node that is not in the table, or that lacks an operand, has no result.
-/

namespace LoopNest

/-- Applies `f` to the elements of a list from first to last, each with the state that the one
before left. -/
def mapThread (f : σ → α → Option (β × σ)) (s : σ) : List α → Option (List β × σ)
  | [] => some ([], s)
  | a :: as => do
    let (b, s) ← f s a
    let (bs, s) ← mapThread f s as
    return (b :: bs, s)

/-- The number of a node in the table of its program. -/
abbrev NodeId := Nat

/-- A node of an expression. The fields after the operands are meaningful for some kinds only. -/
structure Node where
  kind : NodeKind := .invalid
  shape : Shape := []
  operands : List NodeId := []
  /-- The tensor that an identifier reads or writes. -/
  name : String := ""
  /-- Fixed indices of an identifier, in front of its own axes. -/
  fixed : List Int := []
  /-- Swaps of an identifier that range over its fixed indices and its own axes. -/
  perm : List Swap := []
  value : Float := 0
  lhsAxes : List Int := []
  /-- The contracted axes of the right operand. -/
  rhsAxes : List Int := []
  pairs : List Swap := []
deriving Inhabited, Repr

/-- Writes the value of an expression to a destination, which is an identifier node. -/
structure Assignment where
  dst : NodeId
  expr : NodeId
  /-- The axis of the result that is bound to the loop shared by all assignments. -/
  fuseAxis : Option Nat := none
deriving Inhabited, Repr, DecidableEq

/-- Where an expression stands: the root of its assignment, or an operand of a node. -/
inductive Slot where
  | root
  | operand (parent : NodeId) (index : Nat)
deriving Inhabited, Repr, DecidableEq

/-- An ordered list of assignments over a table of nodes. -/
structure Program where
  name : String
  symbols : SymbolTable := {}
  assignments : List Assignment := []
  /-- The extent of the loop shared by all assignments. -/
  fusion : Option Int := none
  nodes : Array Node := #[]
  names : NameSupply := {}
deriving Inhabited, Repr

namespace Program

/-- The program without assignments over a symbol table, whose names are taken. -/
def empty (name : String) (symbols : SymbolTable) : Program :=
  { name, symbols, names := NameSupply.register {} (symbols.all.map (·.name)) }

def node? (p : Program) (id : NodeId) : Option Node := p.nodes[id]?

def add (p : Program) (n : Node) : NodeId × Program :=
  (p.nodes.size, { p with nodes := p.nodes.push n })

def modifyNode (p : Program) (id : NodeId) (f : Node → Node) : Program :=
  { p with nodes := p.nodes.modify id f }

def addIdent (p : Program) (name : String) (shape : Shape) : NodeId × Program :=
  p.add { kind := .identifier, name, shape }

def addView (p : Program) (name : String) (shape : Shape) (fixed : List Int)
    (perm : List Swap) : NodeId × Program :=
  p.add { kind := .identifier, name, shape, fixed, perm }

def addConstant (p : Program) (value : Float) : NodeId × Program :=
  p.add { kind := .constant, value }

/-- Adds an elementwise operation; the shape is that of the first operand. -/
def addBinary (p : Program) (kind : NodeKind) (x y : NodeId) : Option (NodeId × Program) := do
  let xn ← p.node? x
  return p.add { kind, shape := xn.shape, operands := [x, y] }

def addScalarMul (p : Program) (scalar tensor : NodeId) : Option (NodeId × Program) := do
  let tn ← p.node? tensor
  return p.add { kind := .scalarMul, shape := tn.shape, operands := [scalar, tensor] }

def addScalarDiv (p : Program) (tensor scalar : NodeId) : Option (NodeId × Program) := do
  let tn ← p.node? tensor
  return p.add { kind := .scalarDiv, shape := tn.shape, operands := [tensor, scalar] }

def addProduct (p : Program) (x y : NodeId) : Option (NodeId × Program) := do
  let xn ← p.node? x
  let yn ← p.node? y
  return p.add { kind := .product, shape := xn.shape ++ yn.shape, operands := [x, y] }

/-- Adds a contraction over pairs of axes. -/
def addContraction (p : Program) (x : NodeId) (lhsAxes : List Int) (y : NodeId)
    (rhsAxes : List Int) : Option (NodeId × Program) := do
  let xn ← p.node? x
  let yn ← p.node? y
  let shape := xn.shape.remove lhsAxes ++ yn.shape.remove rhsAxes
  return p.add { kind := .contraction, shape, operands := [x, y], lhsAxes, rhsAxes }

/-- Adds a stack, which needs a first member. -/
def addStack (p : Program) (members : List NodeId) : Option (NodeId × Program) := do
  let first ← members.head?
  let n ← p.node? first
  return p.add { kind := .stack, shape := (members.length : Int) :: n.shape, operands := members }

def addTransposition (p : Program) (x : NodeId) (pairs : List Swap) :
    Option (NodeId × Program) := do
  let xn ← p.node? x
  let shape ← xn.shape.permute pairs
  return p.add { kind := .transposition, shape, operands := [x], pairs }

/-- Declares a new tensor under a fresh name. -/
def synthesize (p : Program) (root : String) (shape : Shape) : Symbol × Program :=
  let (name, names) := p.names.fresh root
  let symbol : Symbol := ⟨name, shape, .synthesized⟩
  (symbol, { p with symbols := p.symbols.declare symbol, names })

/-- The declared shape of the tensor of an identifier. -/
def storedShape? (p : Program) (n : Node) : Option Shape :=
  (p.symbols.find? n.name).map (·.shape)

def dst? (p : Program) (a : Assignment) : Option Node := p.node? a.dst

def modifyAssignment (p : Program) (i : Nat) (f : Assignment → Assignment) : Program :=
  { p with assignments := p.assignments.modify i f }

def operand? (p : Program) (parent : NodeId) (index : Nat) : Option NodeId := do
  (← p.node? parent).operands[index]?

def slotNode? (p : Program) (a : Assignment) : Slot → Option NodeId
  | .root => some a.expr
  | .operand parent index => p.operand? parent index

/-- Puts a node at a slot of the assignment at position `i`. -/
def setSlot? (p : Program) (i : Nat) (slot : Slot) (id : NodeId) : Option Program :=
  match slot with
  | .root =>
    if i < p.assignments.length then some (p.modifyAssignment i fun a => { a with expr := id })
    else none
  | .operand parent index => do
    let n ← p.node? parent
    if index < n.operands.length then
      return p.modifyNode parent fun n => { n with operands := n.operands.set index id }
    else none

/-- Inserts assignments in front of the one at position `i`. -/
def insertAt (p : Program) (i : Nat) (new : List Assignment) : Program :=
  { p with assignments := p.assignments.take i ++ new ++ p.assignments.drop i }

/-- Replaces the assignment at position `i`. -/
def replaceAt (p : Program) (i : Nat) (new : List Assignment) : Program :=
  { p with assignments := p.assignments.take i ++ new ++ p.assignments.drop (i + 1) }

/-- Copies a node and all below it, operands first; `fuel` bounds the depth. -/
def cloneWithin (fuel : Nat) (p : Program) (id : NodeId) : Option (NodeId × Program) :=
  match fuel with
  | 0 => none
  | fuel + 1 => do
    let n ← p.node? id
    let (operands, p) ← mapThread (cloneWithin fuel) p n.operands
    return p.add { n with operands }

/-- Copies a node and all below it. No path is longer than the table. -/
def clone (p : Program) (id : NodeId) : Option (NodeId × Program) :=
  cloneWithin p.nodes.size p id

end Program

end LoopNest
