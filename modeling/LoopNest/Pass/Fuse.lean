import LoopNest.IR.Access

/-!
# Shared and flat loops

`fuse` decides whether all assignments of a program can share their outermost loop. `coalescible`
decides whether an assignment can be computed by one loop over the memory of its tensors.
-/

namespace LoopNest.Pass

/-- The axis of an assignment that can be bound to the shared loop: the one that subscripts the
first axis of the destination, provided that it also subscripts the first axis of every other
access to a tensor that the program writes. -/
def sharedAxis (p : Program) (written : List String) (a : Assignment) :
    Option (Option Nat) := do
  let accesses ← p.accesses a
  let write ← accesses.head?
  let first ← write.index.head?
  match first.axis? with
  | none => return none
  | some axis =>
    let fits := accesses.all fun acc =>
      !written.contains acc.name || acc.index.head? == some first
    return if fits then some axis else none

/-- The axes of the assignments that can be bound to the shared loop, and its extent, given the
extent that the assignments before ask for. -/
def sharedAxes (p : Program) (written : List String) :
    (extent : Int) → List Assignment → Option (Option (List Nat × Int))
  | extent, [] => some (some ([], extent))
  | extent, a :: rest => do
    let dst ← p.dst? a
    match (p.storedShape? dst).getD [] with
    | [] => return none
    | d :: _ =>
      if 0 ≤ extent && d ≠ extent then return none
      match ← sharedAxis p written a with
      | none => return none
      | some axis =>
        match ← sharedAxes p written d rest with
        | none => return none
        | some (axes, extent) => return some (axis :: axes, extent)

/-- Binds all assignments to one outermost loop if there are at least two of them and all can
share it; says whether they do. -/
def fuse (p : Program) : Option (Bool × Program) := do
  if p.assignments.length < 2 then return (false, p)
  let written ← p.assignments.mapM fun a => (p.dst? a).map (·.name)
  match ← sharedAxes p written (-1) p.assignments with
  | none => return (false, p)
  | some (axes, extent) =>
    let assignments := (p.assignments.zip axes).map fun (a, axis) => { a with fuseAxis := some axis }
    return (true, { p with assignments, fusion := some extent })

/-- Whether every access of an assignment reads or writes a whole tensor of the shape of the
result, in row-major order, so that one flat loop computes it. -/
def coalescible (p : Program) (a : Assignment) : Option Bool := do
  let dst ← p.dst? a
  if dst.shape.rank < 2 || a.fuseAxis.isSome then return false
  let plain (n : Node) : Bool := n.fixed.isEmpty && n.perm.isEmpty
  let fits ← (p.tree a.expr).every fun n => !n.kind.permutes && (n.kind != .identifier || plain n)
  if !fits || !plain dst then return false
  let accesses ← p.accesses a
  let names := IndexName.results dst.shape.rank
  return (names.zip names.tail).all fun (x, y) => alwaysAdjacent accesses x y

end LoopNest.Pass
