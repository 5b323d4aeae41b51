import LoopNest.Pass.Edit

/-!
# Elimination of stacks

An assignment of a stack at its root becomes one assignment per member, each of which writes a
slice of the destination. A member that is a lifted tensor with no other use is not copied: its
definition writes the slice itself. A member that reads the destination is computed before any
slice is written.
-/

namespace LoopNest.Pass

/-- The root of the names of members that are computed beforehand. -/
def unstackRoot : String := "s"

/-- The position of the only definition of a tensor and the number of its reads. There is no
position when a tensor is defined twice, or at position `i` or later. -/
def soleDefinition (p : Program) (i : Nat) (name : String) :
    (j : Nat) → (defn : Option Nat) → (uses : Nat) → List Assignment →
    Option (Option (Option Nat × Nat))
  | _, defn, uses, [] => some (some (defn, uses))
  | j, defn, uses, a :: rest => do
    let dst ← p.dst? a
    let defines := dst.name == name
    if defines && (defn.isSome || i ≤ j) then return none
    let idents ← (p.tree a.expr).idents
    soleDefinition p i name (j + 1) (if defines then some j else defn)
      (uses + idents.countP (·.2.name == name)) rest

/-- Whether the destination is read by none of the given assignments and written by none of those
strictly between the first and the last. -/
def untouched (p : Program) (dstName : String) (first last : Nat) :
    (j : Nat) → List Assignment → Option Bool
  | _, [] => some true
  | j, a :: rest => do
    if ← (p.tree a.expr).reads dstName then return false
    let dst ← p.dst? a
    if first < j && j < last && dst.name == dstName then return false
    untouched p dstName first last (j + 1) rest

/-- The position of the definition of a member that can write its slice of the destination itself:
a synthesized tensor, read once and defined whole, such that the destination is neither read nor
written from the definition to the stack at position `i`. -/
def renamable (p : Program) (i : Nat) (m : NodeId) (dstName : String) :
    Option (Option Nat) := do
  let n ← p.node? m
  if n.kind ≠ .identifier || !n.fixed.isEmpty || !n.perm.isEmpty then return none
  match p.symbols.find? n.name with
  | none => return none
  | some s =>
    if !s.role.isSynthesized then return none
    match ← soleDefinition p i n.name 0 none 0 p.assignments with
    | some (some j, 1) =>
      let d ← p.dst? (← p.assignments[j]?)
      if !d.fixed.isEmpty || !d.perm.isEmpty then return none
      if ← untouched p dstName j i j ((p.assignments.take (i + 1)).drop j) then return some j
      return none
    | _ => return none

/-- Adds the destination of member `k`: the destination with its leading axis fixed. -/
def memberView (dst : Node) (k : Nat) (shape : Shape) : Edit NodeId :=
  Edit.addView dst.name shape (dst.fixed ++ [(k : Int)]) dst.perm

/-- Handles the members from position `k` on of the stack at the root of the assignment at position
`i`. Returns the assignments that come before all slices, and those of the slices. -/
def unstackMembers (i : Nat) (dst : Node) (stack : NodeId) (k : Nat) (before slices : List Assignment) :
    List NodeId → Edit (List Assignment × List Assignment)
  | [] => return (before, slices)
  | m :: ms => do
    let n ← Edit.node m
    if n.kind = .stack then
      let text ← Edit.query (·.renderExpr stack)
      Edit.fail (.internalError ("nested stack " ++ text))
    else
      match ← Edit.query fun p => renamable p i m dst.name with
      | some j =>
        Edit.change fun p => some { p with symbols := p.symbols.remove n.name }
        let view ← memberView dst k n.shape
        Edit.change fun p => some (p.modifyAssignment j fun a => { a with dst := view })
        unstackMembers i dst stack (k + 1) before slices ms
      | none =>
        if ← Edit.query fun p => (p.tree m).reads dst.name then
          let symbol ← Edit.synthesize unstackRoot n.shape
          let early ← Edit.addIdent symbol.name n.shape
          let read ← Edit.addIdent symbol.name n.shape
          let view ← memberView dst k n.shape
          unstackMembers i dst stack (k + 1) (before ++ [{ dst := early, expr := m }])
            (slices ++ [{ dst := view, expr := read }]) ms
        else
          let view ← memberView dst k n.shape
          unstackMembers i dst stack (k + 1) before (slices ++ [{ dst := view, expr := m }]) ms

/-- Replaces the assignment at position `i` if its root is a stack. -/
def unstackAt (i : Nat) : Edit Unit := do
  let a ← Edit.assignment i
  let root ← Edit.node a.expr
  if root.kind = .stack then
    let dst ← Edit.dst a
    let (before, slices) ←
      Edit.within (.statement i dst.name) (unstackMembers i dst a.expr 0 [] [] root.operands)
    Edit.change fun p => some (p.replaceAt i (before ++ slices))

/-- Handles the `n` first assignments, the last of them first, so that the index of an outer stack
is fixed before the indices of the stacks among its members. -/
def unstackBelow : Nat → Edit Unit
  | 0 => return ()
  | n + 1 => do
    unstackAt n
    unstackBelow n

/-- Removes all stacks, which must stand at the roots of assignments. -/
def unstack : Edit Unit := do
  let n ← Edit.query fun p => some p.assignments.length
  unstackBelow n
  Edit.verify { noKinds := [.stack], noSharing := true }

end LoopNest.Pass
