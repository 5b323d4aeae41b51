import LoopNest.C.Emit
import LoopNest.IR.Build
import LoopNest.Pass.AliasCopy
import LoopNest.Pass.Untranspose
import LoopNest.Pass.Unstack

/-!
# The compiler

Builds the assignments of a typed program, runs the passes in their order and writes the code.
-/

namespace LoopNest

/-- Binds all assignments to one outermost loop where that is possible. -/
def Pass.fusePass : Edit Unit := Edit.change fun p => (Pass.fuse p).map (·.2)

/-- The passes in their order, with their names. -/
def passes (fuse : Bool) : List (String × Edit Unit) :=
  [("lift", Pass.lift Pass.contractionOrStack), ("stackelim", Pass.unstack),
    ("aliascopy", Pass.aliasCopy), ("transpose", Pass.untranspose)]
    ++ (if fuse then [("loopfuse", Pass.fusePass)] else [])

def runPasses (p : Program) : List (String × Edit Unit) → Except Failure Program
  | [] => .ok p
  | (name, pass) :: rest =>
    match pass p with
    | .ok () p => runPasses p rest
    | .error e _ => .error (e.map (.context s!"{name} pass failed"))

/-- The assignments of a typed program after all passes. -/
def lower (p : Typed.Program) (fuse : Bool) : Except Failure Program := do
  runPasses (← build p) (passes fuse)

def compile (p : Typed.Program) (fuse : Bool) (opts : EmitOptions) : Except Failure C.Code := do
  C.emit (← lower p fuse) opts

end LoopNest
