import LoopNest.Index.Shape
import LoopNest.IR.Tree

/-!
# Subscripts and accesses

How the index of an element of a result determines the indices of the elements that are read. The
definitions hold for indices of any type: integers when a program is run, names of loops when code
is written. `accesses` lists the reads and the write of an assignment with their subscripts.
-/

namespace LoopNest

/-- The subscript of the stored tensor of an identifier: its fixed indices and its own indices,
with the swaps undone. -/
def Node.subscript (n : Node) (fixed : Int → τ) (own : List τ) : Option (List τ) :=
  backward n.perm (n.fixed.map fixed ++ own)

/-- The indices of each operand of a node of which the operands have the given ranks, from the
indices of its result and its contracted indices. A leaf has no operands, and the members of a
stack are indexed without the leading axis. -/
def Node.operandIndices (n : Node) (ranks : List (Option Nat)) (result contracted : List τ) :
    Option (List (List τ)) :=
  match n.kind with
  | .add | .sub | .mul | .div => some [result, result]
  | .scalarMul => some [[], result]
  | .scalarDiv => some [result, []]
  | .product => do
    let split ← (ranks[0]?).join
    if split ≤ result.length then some [result.take split, result.drop split] else none
  | .contraction => do
    let (lhs, rest) ← interleave (← (ranks[0]?).join) n.lhsAxes result contracted
    let (rhs, _) ← interleave (← (ranks[1]?).join) n.rhsAxes rest contracted
    some [lhs, rhs]
  | .stack =>
    match n.operands, result with
    | [], _ => some []
    | _ :: _, [] => none
    | ops, _ :: rest => some (ops.map fun _ => rest)
  | .transposition => do return [← backward n.pairs result]
  | .invalid | .identifier | .constant | .unknown => some []

/-- A read or a write of a tensor, with the subscript of the stored element. -/
structure Access (τ : Type u) where
  node : NodeId
  name : String
  index : List τ
  write : Bool
deriving Repr, DecidableEq

namespace Tree

mutual
/-- The reads of a tree in depth-first order, and the number of contracted indices used so far. -/
def readsAt (fixed : Int → τ) (sum : Nat → τ) :
    Tree → (idx : List τ) → (next : Nat) → Option (List (Access τ) × Nat)
  | .missing, _, _ => none
  | .node id n ts, idx, next =>
    match n.kind with
    | .identifier => do return ([⟨id, n.name, ← n.subscript fixed idx, false⟩], next)
    | .constant => some ([], next)
    | _ => do
      let contracted := (List.range n.lhsAxes.length).map fun t => sum (next + t)
      let ops ← n.operandIndices (ts.map Tree.rank?) idx contracted
      readsOperands fixed sum ts ops (next + n.lhsAxes.length)

/-- The reads of operands, each at its own indices. -/
def readsOperands (fixed : Int → τ) (sum : Nat → τ) :
    List Tree → List (List τ) → (next : Nat) → Option (List (Access τ) × Nat)
  | [], _, next => some ([], next)
  | _ :: _, [], _ => none
  | t :: ts, idx :: ops, next => do
    let (first, next) ← t.readsAt fixed sum idx next
    let (rest, next) ← readsOperands fixed sum ts ops next
    return (first ++ rest, next)
end

end Tree

namespace Program

/-- The accesses of an assignment at the given result indices, its write first. -/
def accessesWith (p : Program) (a : Assignment) (fixed : Int → τ) (sum : Nat → τ)
    (result : List τ) : Option (List (Access τ)) := do
  let dst ← p.dst? a
  let write ← dst.subscript fixed result
  let (reads, _) ← (p.tree a.expr).readsAt fixed sum result 0
  return ⟨a.dst, dst.name, write, true⟩ :: reads

end Program

/-- An index in a subscript: an axis of the result, a contracted index or a fixed position. -/
inductive IndexName where
  | result (axis : Nat)
  | sum (t : Nat)
  | fixed (k : Int)
deriving DecidableEq, Repr, Inhabited

namespace IndexName

def render : IndexName → String
  | .result axis => s!"i{axis}"
  | .sum t => s!"k{t}"
  | .fixed k => s!"#{k}"

/-- The indices of a result of a given rank. -/
def results (rank : Nat) : List IndexName := (List.range rank).map .result

def axis? : IndexName → Option Nat
  | .result axis => some axis
  | _ => none

end IndexName

namespace Program

/-- The accesses of an assignment, its write first, at the indices of its result. -/
def accesses (p : Program) (a : Assignment) : Option (List (Access IndexName)) := do
  let dst ← p.dst? a
  p.accessesWith a .fixed .sum (IndexName.results dst.shape.rank)

/-- The accesses of an assignment when its result indices have the given texts. -/
def namedAccesses (p : Program) (a : Assignment) (result : List String) :
    Option (List (Access String)) :=
  p.accessesWith a (fun k => (IndexName.fixed k).render) (fun t => (IndexName.sum t).render) result

end Program

/-- In every access, the index `x` is right in front of `y`, or neither of them occurs. -/
def alwaysAdjacent [DecidableEq τ] (accesses : List (Access τ)) (x y : τ) : Bool :=
  accesses.all fun a =>
    match a.index.idxOf? x, a.index.idxOf? y with
    | none, none => true
    | some i, some j => j == i + 1
    | _, _ => false

end LoopNest
