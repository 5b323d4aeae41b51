import LoopNest.Pass.Edit

/-!
# Lifting

Moves selected subexpressions into assignments of their own, so that they only occur at the roots
of assignments. Shared nodes are copied first, so that every node has one place.
-/

namespace LoopNest.Pass

def liftRoot : String := "t"

/-- Walks an expression and puts a copy at every place whose node was reached before. `fuel`
bounds the depth of the walk. -/
def unshareAt (fuel i : Nat) (slot : Slot) (id : NodeId) (seen : List NodeId) :
    Edit (List NodeId) :=
  match fuel with
  | 0 => Edit.query fun _ => none
  | fuel + 1 => do
    if seen.contains id then
      let copy ← Edit.update (·.clone id)
      Edit.setSlot i slot copy
      return seen
    else
      let n ← Edit.node id
      (List.range n.operands.length).foldlM (fun seen k => do
        let op ← Edit.query (·.operand? id k)
        unshareAt fuel i (.operand id k) op seen) (id :: seen)

/-- The destination of an assignment, or a copy of it that is put in its place when its node was
reached before. -/
def unshareDst (i : Nat) (a : Assignment) (seen : List NodeId) : Edit NodeId := do
  if seen.contains a.dst then
    let copy ← Edit.update (·.clone a.dst)
    Edit.change fun p => some (p.modifyAssignment i fun a => { a with dst := copy })
    return copy
  else return a.dst

/-- Gives every node of the assignments from position `i` on one place; `n` assignments are left
and the nodes in `seen` have their place. -/
def unshareFrom (n i : Nat) (seen : List NodeId) : Edit Unit :=
  match n with
  | 0 => return ()
  | n + 1 => do
    let a ← Edit.assignment i
    let dst ← unshareDst i a seen
    let fuel ← Edit.query fun p => some p.nodes.size
    let seen ← unshareAt fuel i .root a.expr (dst :: seen)
    unshareFrom n (i + 1) seen

/-- Copies every node that is reached more than once, so that each has one place. -/
def unshare : Edit Unit := do
  let n ← Edit.query fun p => some p.assignments.length
  unshareFrom n 0 []

/-- The first place below the root of a tree whose node is selected. -/
def findNested (pred : NodeKind → Bool) (t : Tree) : Option (Option Slot) :=
  t.find fun slot n => slot ≠ .root && pred n.kind

/-- Moves the expression at a slot of the assignment at position `i` into an assignment to a new
tensor right in front of it. The new tensor is read instead; its node is returned. -/
def hoist (i : Nat) (slot : Slot) : Edit NodeId := do
  let a ← Edit.assignment i
  let removed ← Edit.query (·.slotNode? a slot)
  let shape := (← Edit.node removed).shape
  let symbol ← Edit.synthesize liftRoot shape
  let read ← Edit.addIdent symbol.name shape
  Edit.setSlot i slot read
  let dst ← Edit.addIdent symbol.name shape
  Edit.change fun p => some (p.insertAt i [{ dst, expr := removed }])
  return read

/-- Lifts the selected nodes below the root of the assignment at position `i`, and those of the
assignments that this puts in front of it. Returns its new position. `fuel` bounds the number of
selected nodes. -/
def liftAt (pred : NodeKind → Bool) (fuel i : Nat) : Edit Nat :=
  match fuel with
  | 0 => Edit.query fun _ => none
  | fuel + 1 => do
    let a ← Edit.assignment i
    match ← Edit.query fun p => findNested pred (p.tree a.expr) with
    | none => return i
    | some slot =>
      let _ ← hoist i slot
      let j ← liftAt pred fuel i
      liftAt pred fuel (j + 1)

/-- Lifts the selected nodes of `n` assignments, the first of which is at position `i`. -/
def liftFrom (pred : NodeKind → Bool) (n i : Nat) : Edit Unit :=
  match n with
  | 0 => return ()
  | n + 1 => do
    let fuel ← Edit.query fun p => some (p.nodes.size + 1)
    let j ← liftAt pred fuel i
    liftFrom pred n (j + 1)

/-- The nodes that are lifted by the compiler. -/
def contractionOrStack : NodeKind → Bool
  | .contraction | .stack => true
  | _ => false

/-- The error when a selected node still stands below the root of one of the assignments, the first
of which is at position `i`. -/
def stillNested (p : Program) (pred : NodeKind → Bool) (i : Nat) :
    List Assignment → Option (Option Diagnostic)
  | [] => return none
  | a :: rest => do
    match ← findNested pred (p.tree a.expr) with
    | none => stillNested p pred (i + 1) rest
    | some slot =>
      let text ← p.renderAssignment a
      let n ← p.node? (← p.slotNode? a slot)
      return some (.internalError (s!"assignment {i} " ++ Text.quote text
        ++ s!": node {n.kind.name} still nested after lifting"))

/-- Moves the selected nodes to the roots of assignments. -/
def lift (pred : NodeKind → Bool) : Edit Unit := do
  unshare
  let n ← Edit.query fun p => some p.assignments.length
  liftFrom pred n 0
  Edit.verify { noSharing := true }
  Edit.check fun p => stillNested p pred 0 p.assignments

end LoopNest.Pass
