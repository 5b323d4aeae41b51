import LoopNest.Pass.Lift

/-!
# Resolution of transpositions

Transpositions are pushed down to the identifiers, where they become swaps of subscripts. A
transposition that mixes the axes of the two operands of an outer product stays above it: the
product is computed into a tensor of its own first, as are contractions and stacks.
-/

namespace LoopNest.Pass

/-- The place of the first transposition of a tree. -/
def findTransposition (t : Tree) : Option (Option Slot) :=
  t.find fun _ n => n.kind == .transposition

/-- The swaps of the two operands of a product that together do what the given swaps do to the
product; there are none when axes move from one operand to the other. -/
def splitSwaps (pairs : List Swap) (rank lhsRank : Nat) :
    Option (Option (List Swap × List Swap)) := do
  let perm ← forward pairs ((List.range rank).map Int.ofNat)
  let mixes := (perm.zipIdx).any fun (ax, i) => decide (i < lhsRank) != decide (ax < lhsRank)
  if mixes then return none
  if rank < lhsRank then none
  else
    let lhs ← permutationSwaps (perm.take lhsRank)
    let rhs ← permutationSwaps ((perm.drop lhsRank).map (· - lhsRank))
    return some (lhs, rhs)

/-- Puts a transposition above an operand of a node. -/
def transposeOperand (id : NodeId) (pairs : List Swap) (k : Nat) : Edit Unit := do
  let op ← Edit.query (·.operand? id k)
  Edit.setOperand id k (← Edit.addTransposition op pairs)

/-- Puts a transposition above an operand of a node unless there is nothing to swap. -/
def turnOperand (id : NodeId) (pairs : List Swap) (k : Nat) : Edit Unit :=
  if pairs.isEmpty then return () else transposeOperand id pairs k

/-- Moves the transposition `t` at a slot of the assignment at position `i` below its operand `x`. -/
def pushBelow (i : Nat) (slot : Slot) (tid : NodeId) (t : Node) (xid : NodeId) (x : Node) :
    Edit Unit :=
  match x.kind with
  | .identifier => do
    let perm := x.perm ++ shiftSwaps x.fixed.length t.pairs
    Edit.setSlot i slot (← Edit.addView x.name t.shape x.fixed perm)
  | .constant => Edit.setSlot i slot xid
  | .add | .sub | .mul | .div => do
    (List.range x.operands.length).forM (transposeOperand xid t.pairs)
    Edit.modifyNode xid fun n => { n with shape := t.shape }
    Edit.setSlot i slot xid
  | .scalarMul => do
    transposeOperand xid t.pairs 1
    Edit.modifyNode xid fun n => { n with shape := t.shape }
    Edit.setSlot i slot xid
  | .scalarDiv => do
    transposeOperand xid t.pairs 0
    Edit.modifyNode xid fun n => { n with shape := t.shape }
    Edit.setSlot i slot xid
  | .transposition => do
    let inner ← Edit.query (·.operand? xid 0)
    Edit.modifyNode tid fun n => { n with pairs := x.pairs ++ t.pairs }
    Edit.setOperand tid 0 inner
  | .product => do
    let lhs ← Edit.node (← Edit.query (·.operand? xid 0))
    match ← Edit.query fun _ => splitSwaps t.pairs t.shape.rank lhs.shape.rank with
    | none =>
      let _ ← hoist i (.operand tid 0)
    | some (lhsSwaps, rhsSwaps) =>
      turnOperand xid lhsSwaps 0
      turnOperand xid rhsSwaps 1
      Edit.modifyNode xid fun n => { n with shape := t.shape }
      Edit.setSlot i slot xid
  | .contraction | .stack => do
    let _ ← hoist i (.operand tid 0)
  | .invalid | .unknown => Edit.fail (.internalError s!"cannot transpose a {x.kind.name} node")

/-- Moves the transposition at a slot of the assignment at position `i` one level down. -/
def push (i : Nat) (slot : Slot) : Edit Unit := do
  let a ← Edit.assignment i
  let tid ← Edit.query (·.slotNode? a slot)
  let t ← Edit.node tid
  let xid ← Edit.query (·.operand? tid 0)
  pushBelow i slot tid t xid (← Edit.node xid)

/-- Pushes transpositions down, starting with the assignment at position `i`, until none is left.
A product that is moved out is put at position `i` and handled before the rest. -/
def untransposeFrom (fuel i : Nat) : Edit Unit :=
  match fuel with
  | 0 => Edit.query fun _ => none
  | fuel + 1 => do
    match (← get).assignments[i]? with
    | none => return ()
    | some a =>
      match ← Edit.query fun p => findTransposition (p.tree a.expr) with
      | none => untransposeFrom fuel (i + 1)
      | some slot => do
        let dst ← Edit.dst a
        Edit.within (.statement i dst.name) (push i slot)
        untransposeFrom fuel i

mutual
def treeSize : Tree → Nat
  | .missing => 1
  | .node _ _ ts => 1 + treeSizes ts

/-- The number of nodes of several trees. -/
def treeSizes : List Tree → Nat
  | [] => 0
  | t :: ts => treeSize t + treeSizes ts
end

/-- A bound on the number of steps: each push makes the sum, over all transpositions, of the sizes
of their operands smaller. -/
def pushBound (p : Program) : Nat :=
  let n := treeSizes (p.assignments.map fun a => p.tree a.expr) + p.assignments.length + 2
  n * n * n

def untranspose : Edit Unit := do
  untransposeFrom (pushBound (← get)) 0
  Edit.verify { noKinds := [.transposition, .stack], noSharing := true }

end LoopNest.Pass
