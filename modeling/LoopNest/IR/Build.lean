import LoopNest.IR.Basic
import LoopNest.Typed.Validate

/-!
# From typed programs to assignments

Each statement becomes one assignment. Operands are built before the node that uses them, and all
occurrences of a shared expression become one node.
-/

namespace LoopNest

/-- The program under construction and the nodes of the shared expressions met so far. -/
structure Building where
  program : Program
  memo : List (Nat × NodeId) := []

namespace Building

/-- Adds a node to the program under construction. -/
def alloc (b : Building) (f : Program → Option (NodeId × Program)) : Option (NodeId × Building) := do
  let (id, program) ← f b.program
  return (id, { b with program })

mutual
def expr : Typed.Expr → Building → Option (NodeId × Building)
  | .missing, _ => none
  | .ident name dims, b => b.alloc fun p => some (p.addIdent name dims)
  | .const v, b => b.alloc fun p => some (p.addConstant v)
  | .binary op x y, b => do
    let (x, b) ← expr x b
    let (y, b) ← expr y b
    b.alloc (·.addBinary op x y)
  | .scale op scalar tensor, b => do
    let (s, b) ← expr scalar b
    let (t, b) ← expr tensor b
    if op = .scalarDiv then b.alloc (·.addScalarDiv t s) else b.alloc (·.addScalarMul s t)
  | .product x y, b => do
    let (x, b) ← expr x b
    let (y, b) ← expr y b
    b.alloc (·.addProduct x y)
  | .contract x xAxes y yAxes, b => do
    let (x, b) ← expr x b
    let (y, b) ← expr y b
    b.alloc (·.addContraction x xAxes y yAxes)
  | .stack members, b => do
    let (ms, b) ← exprs members b
    b.alloc (·.addStack ms)
  | .transpose x pairs, b => do
    let (x, b) ← expr x b
    b.alloc (·.addTransposition x pairs)
  | .shared label e, b =>
    match b.memo.lookup label with
    | some id => some (id, b)
    | none => do
      let (id, b) ← expr e b
      return (id, { b with memo := (label, id) :: b.memo })

/-- The nodes of several expressions. -/
def exprs : List Typed.Expr → Building → Option (List NodeId × Building)
  | [], b => some ([], b)
  | e :: es, b => do
    let (id, b) ← expr e b
    let (ids, b) ← exprs es b
    return (id :: ids, b)
end

/-- Adds the assignment of a statement. -/
def stmt (b : Building) (s : Typed.Stmt) : Option Building := do
  let symbol ← b.program.symbols.find? s.dst
  let (expr, b) ← expr s.expr b
  let shape ← symbol.shape.permute s.perm
  let (dst, program) := b.program.addView s.dst shape [] s.perm
  return { b with program :=
    { program with assignments := program.assignments ++ [{ dst, expr }] } }

/-- Adds the assignments of statements. -/
def stmts (b : Building) : List Typed.Stmt → Option Building
  | [] => some b
  | s :: rest => do (← b.stmt s).stmts rest

end Building

/-- The assignment program of a typed program, which must be valid. -/
def build (p : Typed.Program) : Except Failure Program := do
  match Typed.validate p with
  | .error e => throw (.error e.diagnostic)
  | .ok () =>
    let start : Building := { program := Program.empty p.name (SymbolTable.ofList p.decls) }
    let b ← orFault (start.stmts p.stmts)
    return b.program

end LoopNest
