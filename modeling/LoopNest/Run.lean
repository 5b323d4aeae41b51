import LoopNest.Config.Basic
import LoopNest.Kernel.Execution
import LoopNest.Tensor

/-!
# Compiling and running programs on a host

The steps from a typed program to the values of its outputs, with their log records.
-/

namespace LoopNest

variable {ω : Type}

/-- Runs the passes, with a record for each. -/
def lowerWith (name : String) (p : Program) : List (String × Edit Unit) → Action ω Program
  | [] => return p
  | (passName, pass) :: rest => do
    match pass p with
    | .error e _ => throw (e.map (.context s!"{passName} pass failed"))
    | .ok () p =>
      Action.record .debug "pass done" [("program", name), ("pass", passName),
        ("assignments", toString p.assignments.length), ("symbols", toString p.symbols.size)]
      lowerWith name p rest

def emitOn (opts : CompileOptions) (p : Typed.Program) : Action ω C.Code := do
  let q ← Action.ofExcept (build p)
  Action.record .debug "program built"
    [("program", p.name), ("assignments", toString q.assignments.length)]
  let q ← lowerWith p.name q (passes opts.fuse)
  if let some extent := q.fusion then
    Action.record .debug "loops fused" [("program", p.name), ("extent", toString extent)]
  let code ← Action.ofExcept (C.emit q opts.emit)
  Action.record .debug "code emitted" [("program", p.name), ("func", code.funcName),
    ("bytes", toString code.source.utf8ByteSize)]
  return code

def buildOn (host : Host ω) (opts : CompileOptions) (p : Typed.Program) : Action ω Kernel := do
  Kernel.build host (← emitOn opts p) opts.build

/-- The error for an input without values. -/
def missingValue (name : String) : Diagnostic := .cause s!"missing value for input {name}"

/-- The buffer of an argument: the given values, or zeros for an output without any. -/
def argumentBuffer (code : C.Code) (inputs : Inputs Float) (f : C.Formal) : Except Failure Buffer :=
  if !holdsElements code.dtype.bytes f.shape.size then .error .fault
  else match inputs.lookup f.name with
  | none =>
    if f.input then .error (.error (missingValue f.name))
    else .ok ⟨code.dtype, List.replicate f.shape.size.toNat 0⟩
  | some vals =>
    if (vals.length : Int) ≠ f.shape.size then
      .error (.error (.cause
        (inputCountMessage f.name vals.length (renderSpaced f.shape) f.shape.size.toNat)))
    else .ok ⟨code.dtype, vals.map code.dtype.convert⟩

def bindAll (k : Kernel) (e : Execution) (id : Nat) :
    List (C.Formal × Buffer) → Except Diagnostic Execution
  | [] => .ok e
  | (f, b) :: rest => do bindAll k (← e.bind k f.name b id) (id + 1) rest

/-- Calls a loaded kernel of some code once; the result is the values of its outputs. -/
def execute (code : C.Code) (k : Kernel) (inputs : Inputs Float) : Except Failure (Inputs Float) := do
  let buffers ← code.formals.mapM (argumentBuffer code inputs)
  let e ← (bindAll k (.ofKernel k) 0 (code.formals.zip buffers)).mapError .error
  let (f, ids) ← (e.arguments k).mapError .error
  let (_, buffers) ← orFault (callOn f code.dtype ids buffers)
  return ((code.formals.zip buffers).filter (·.1.output)).map fun (f, b) => (f.name, b.data)

/-- Runs an action, then another one whatever became of the first; errors add up. -/
def andFinally (a : Action ω α) (last : Action ω (Option Diagnostic)) : Action ω α := fun s =>
  match a s with
  | .ok x s =>
    match last s with
    | .ok none s => .ok x s
    | .ok (some d) s => .error (.error d) s
    | .error e s => .error e s
  | .error (.error d) s =>
    match last s with
    | .ok more s => .error (.error (more.elim d (Diagnostic.append (some d)))) s
    | .error e s => .error e s
  | .error .fault s => .error .fault s

/-- Compiles, loads and calls a program once and cleans up. -/
def runOn (host : Host ω) (opts : CompileOptions) (p : Typed.Program) (inputs : Inputs Float) :
    Action ω (Inputs Float) := do
  if let some d := p.decls.find? fun d => d.role.isInput && (inputs.lookup d.name).isNone then
    Action.fail (missingValue d.name)
  else
    let code ← emitOn opts p
    let k ← Kernel.build host code opts.build
    match k.load host (← get) with
    | .error e s =>
      set s
      andFinally (throw e) (do return (← k.clean host).2)
    | .ok k s =>
      set s
      andFinally (Action.ofExcept (execute code k inputs)) (do return (← k.clean host).2)

end LoopNest
