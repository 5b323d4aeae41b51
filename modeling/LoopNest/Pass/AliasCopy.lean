import LoopNest.Pass.Edit

/-!
# Copies of overwritten tensors

An assignment may read its own destination at an element other than the one it writes, and could
then read a value that was overwritten. The destination is copied beforehand, and the copy is read
instead.
-/

namespace LoopNest.Pass

def copyRoot : String := "old"

mutual
/-- The places of a tree that read the destination at another element than the one written.
`permuted` says that an operation above does not index its operands like its result. -/
def incompatibleAt (dst : Node) (permuted : Bool) (slot : Slot) : Tree → Option (List Slot)
  | .missing => none
  | .node id n ts =>
    if n.kind = .identifier then
      if n.name = dst.name ∧ (permuted ∨ n.fixed ≠ dst.fixed ∨ n.perm ≠ dst.perm) then some [slot]
      else some []
    else incompatibleOperands dst (permuted || n.kind.permutes) id 0 ts

/-- The places of the operands of a node from position `k` on. -/
def incompatibleOperands (dst : Node) (permuted : Bool) (parent : NodeId) (k : Nat) :
    List Tree → Option (List Slot)
  | [] => some []
  | t :: ts => do
    return (← incompatibleAt dst permuted (.operand parent k) t)
      ++ (← incompatibleOperands dst permuted parent (k + 1) ts)
end

/-- The places of an assignment that read its destination at another element than the one
written. -/
def incompatible (p : Program) (a : Assignment) : Option (List Slot) := do
  incompatibleAt (← p.dst? a) false .root (p.tree a.expr)

/-- Reads the tensor of a given name instead at each of the places. -/
def redirect (i : Nat) (name : String) : List Slot → Edit Unit
  | [] => return ()
  | slot :: rest => do
    let a ← Edit.assignment i
    let old ← Edit.node (← Edit.query (·.slotNode? a slot))
    let read ← Edit.addView name old.shape old.fixed old.perm
    Edit.setSlot i slot read
    redirect i name rest

/-- Puts a copy of the destination in front of the assignment at position `i` if it needs one, and
says whether it did. -/
def copyAt (i : Nat) : Edit Bool := do
  let a ← Edit.assignment i
  let slots ← Edit.query fun p => incompatible p a
  if slots.isEmpty then return false
  let dst ← Edit.dst a
  let stored ← Edit.query fun p => some ((p.storedShape? dst).getD [])
  let symbol ← Edit.synthesize copyRoot stored
  redirect i symbol.name slots
  let copy ← Edit.addIdent symbol.name stored
  let read ← Edit.addIdent dst.name stored
  Edit.change fun p => some (p.insertAt i [{ dst := copy, expr := read }])
  return true

/-- Handles `n` assignments, the first of which is at position `i`. -/
def copyFrom (n i : Nat) : Edit Unit :=
  match n with
  | 0 => return ()
  | n + 1 => do
    if ← copyAt i then copyFrom n (i + 2) else copyFrom n (i + 1)

/-- Copies the destination of every assignment that reads it at another element. -/
def aliasCopy : Edit Unit := do
  let n ← Edit.query fun p => some p.assignments.length
  copyFrom n 0
  Edit.verify { noSharing := true }

end LoopNest.Pass
