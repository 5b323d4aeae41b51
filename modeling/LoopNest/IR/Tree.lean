import LoopNest.IR.Basic
import LoopNest.Text.Decimal

/-!
# Expression trees

The tree below a node of a program: each occurrence of a shared node has a subtree of its own.
Everything that only looks at expressions works on trees.
-/

namespace LoopNest

/-- An unfolded expression. A node that is not in the table is `missing`. -/
inductive Tree where
  | missing
  | node (id : NodeId) (label : Node) (operands : List Tree)
deriving Inhabited

namespace Tree

def label? : Tree → Option Node
  | .missing => none
  | .node _ n _ => some n

def rank? (t : Tree) : Option Nat := t.label?.map (·.shape.rank)

end Tree

/-- The tree below a node, cut off at depth `fuel`. -/
def Program.unfold (p : Program) (fuel : Nat) (id : NodeId) : Tree :=
  match fuel with
  | 0 => .missing
  | fuel + 1 =>
    match p.node? id with
    | none => .missing
    | some n => .node id n (n.operands.map (p.unfold fuel))

/-- The tree below a node. In a table without cycles no path is longer than the table. -/
def Program.tree (p : Program) (id : NodeId) : Tree := p.unfold p.nodes.size id

namespace Tree

mutual
/-- The places of a tree, parents before operands, each with its slot and its node. -/
def walkFrom (slot : Slot) : Tree → Option (List (Slot × NodeId × Node))
  | .missing => none
  | .node id n ts => do return (slot, id, n) :: (← walkOperands id 0 ts)

/-- The places below the operands of a node from position `i` on. -/
def walkOperands (parent : NodeId) (i : Nat) : List Tree → Option (List (Slot × NodeId × Node))
  | [] => some []
  | t :: ts => do return (← t.walkFrom (.operand parent i)) ++ (← walkOperands parent (i + 1) ts)
end

/-- The places of a tree, parents before operands. -/
def walk (t : Tree) : Option (List (Slot × NodeId × Node)) := t.walkFrom .root

mutual
/-- The slot of the first place that is selected, parents before operands. A missing node counts
only if it comes before that place. -/
def findFrom (selects : Slot → Node → Bool) (slot : Slot) : Tree → Option (Option Slot)
  | .missing => none
  | .node id n ts => if selects slot n then some (some slot) else findOperands selects id 0 ts

/-- The first selected place below the operands of a node from position `i` on. -/
def findOperands (selects : Slot → Node → Bool) (parent : NodeId) (i : Nat) :
    List Tree → Option (Option Slot)
  | [] => some none
  | t :: ts => do
    match ← t.findFrom selects (.operand parent i) with
    | some slot => return some slot
    | none => findOperands selects parent (i + 1) ts
end

/-- The slot of the first place that is selected, parents before operands. -/
def find (selects : Slot → Node → Bool) (t : Tree) : Option (Option Slot) :=
  t.findFrom selects .root

mutual
/-- Whether all nodes have a property. Nothing below a node is looked at from the first node on
that does not have it. -/
def every (holds : Node → Bool) : Tree → Option Bool
  | .missing => none
  | .node _ n ts => if holds n then everyOperand holds ts else some false

/-- Whether all nodes of several trees have a property. -/
def everyOperand (holds : Node → Bool) : List Tree → Option Bool
  | [] => some true
  | t :: ts => do
    if ← t.every holds then everyOperand holds ts
    else if ts.all (·.label?.isSome) then return false
    else none
end

/-- The identifiers of a tree in depth-first order. -/
def idents (t : Tree) : Option (List (NodeId × Node)) := do
  return ((← t.walk).filter (·.2.2.kind == .identifier)).map (·.2)

def reads (t : Tree) (name : String) : Option Bool := do
  return (← t.idents).any (·.2.name == name)

end Tree

def Node.renderIdent (n : Node) : String :=
  n.name ++ (if n.fixed.isEmpty then "" else "\x7b" ++ renderCommas n.fixed ++ "\x7d")
    ++ (if n.perm.isEmpty then "" else "^" ++ renderSwaps n.perm)

/-- The text of a node, given the texts of its operands. -/
def Node.renderWith (n : Node) (ops : List (Option String)) : Option String :=
  let op (i : Nat) : Option String := (ops[i]?).join
  match n.kind with
  | .identifier => some n.renderIdent
  | .constant => some (Decimal.render n.value)
  | .add | .sub | .mul | .div => do
    return "(" ++ (← op 0) ++ " " ++ n.kind.operator ++ " " ++ (← op 1) ++ ")"
  | .scalarMul => do return "smul(" ++ (← op 0) ++ ", " ++ (← op 1) ++ ")"
  | .scalarDiv => do return "sdiv(" ++ (← op 0) ++ ", " ++ (← op 1) ++ ")"
  | .product => do return "outer(" ++ (← op 0) ++ ", " ++ (← op 1) ++ ")"
  | .contraction => do
    return "contract(" ++ (← op 0) ++ ", [" ++ renderCommas n.lhsAxes ++ "], " ++ (← op 1)
      ++ ", [" ++ renderCommas n.rhsAxes ++ "])"
  | .stack => do return "stack(" ++ ", ".intercalate (← ops.mapM id) ++ ")"
  | .transposition => do return "transpose(" ++ (← op 0) ++ ", " ++ renderSwaps n.pairs ++ ")"
  | .invalid | .unknown => some ("<" ++ n.kind.name ++ ">")

namespace Tree

mutual
def render : Tree → Option String
  | .missing => none
  | .node _ n ts => n.renderWith (renderAll ts)

/-- The texts of several trees. -/
def renderAll : List Tree → List (Option String)
  | [] => []
  | t :: ts => t.render :: renderAll ts
end

end Tree

namespace Program

def renderExpr (p : Program) (id : NodeId) : Option String := (p.tree id).render

def renderAssignment (p : Program) (a : Assignment) : Option String := do
  let dst ← p.dst? a
  let expr ← p.renderExpr a.expr
  let fused :=
    match a.fuseAxis with
    | none => ""
    | some axis => s!" @fuse({axis})"
  return dst.renderIdent ++ " := " ++ expr ++ fused

def render (p : Program) : Option (List String) := p.assignments.mapM p.renderAssignment

end Program

end LoopNest
