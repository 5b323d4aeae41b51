import LoopNest.Data.HandleTable
import LoopNest.Kernel.Execution
import LoopNest.Run

/-!
# Sessions

A session gives out handles for code, kernels and executions. An operation on a handle that is not
live, or of another kind, is an error and changes nothing. Executions keep their kernel, even after
the handle of the kernel was released.
-/

namespace LoopNest

/-- What a handle stands for. Kernels and executions are given by their numbers in the session. -/
inductive Entity where
  | code (c : C.Code)
  | kernel (id : Nat)
  | execution (id : Nat)
deriving Inhabited

namespace Entity

def code? : Entity → Option C.Code
  | .code c => some c
  | _ => none

/-- The number of the kernel that a handle stands for. -/
def kernel? : Entity → Option Nat
  | .kernel id => some id
  | _ => none

/-- The number of the execution that a handle stands for. -/
def execution? : Entity → Option Nat
  | .execution id => some id
  | _ => none

end Entity

instance : HandleValue Entity where
  typeName
    | .code _ => "*runtime.CodeGen"
    | .kernel _ => "*runtime.Kernel"
    | .execution _ => "*runtime.Execution"
  isZero _ := false

/-- The handles, and everything that was made under them. -/
structure Session where
  handles : HandleTable Entity := {}
  kernels : List Kernel := []
  /-- The executions with the numbers of their kernels. -/
  executions : List (Nat × Execution) := []
  /-- The buffers that were bound. -/
  buffers : List Buffer := []

namespace Session

variable {ω : Type}

def code (s : Session) (h : Nat) : Except HandleError C.Code :=
  s.handles.unwrap "*runtime.CodeGen" Entity.code? h

/-- The kernel of a handle, with its number. -/
def kernel (s : Session) (h : Nat) : Except HandleError (Nat × Kernel) := do
  let id ← s.handles.unwrap "*runtime.Kernel" Entity.kernel? h
  match s.kernels[id]? with
  | some k => .ok (id, k)
  | none => .error (.unknown h)

/-- The execution of a handle, with its number and its kernel. -/
def execution (s : Session) (h : Nat) : Except HandleError (Nat × Execution × Kernel) := do
  let id ← s.handles.unwrap "*runtime.Execution" Entity.execution? h
  match s.executions[id]? with
  | none => .error (.unknown h)
  | some (kernelId, e) =>
    match s.kernels[kernelId]? with
    | some k => .ok (id, e, k)
    | none => .error (.unknown h)

/-- A new handle for an entity, unless no number is left. -/
def give (s : Session) (v : Entity) : Option (Nat × Session) :=
  let (h, handles) := s.handles.wrap v
  if h = 0 then none else some (h, { s with handles })

def forget (s : Session) (h : Nat) : Except HandleError Session := do
  return { s with handles := ← s.handles.release h }

def setKernel (s : Session) (id : Nat) (k : Kernel) : Session := { s with kernels := s.kernels.set id k }

def setExecution (s : Session) (id : Nat) (e : Execution) : Session :=
  { s with executions := s.executions.modify id fun x => (x.1, e) }

inductive Call where
  | emit (program : Typed.Program) (opts : CompileOptions)
  | newCode (c : C.Code)
  | source (h : Nat)
  | releaseCode (h : Nat)
  | build (h : Nat) (opts : Kernel.BuildOptions)
  | load (h : Nat)
  | unload (h : Nat)
  | releaseKernel (h : Nat)
  | newExecution (h : Nat)
  | bind (h : Nat) (name : String) (b : Buffer)
  | clear (h : Nat)
  | execute (h : Nat)
  | releaseExecution (h : Nat)
deriving Inhabited

/-- What a call gives. -/
inductive Reply where
  | done
  | handle (h : Nat)
  | text (s : String)
  | bound (buffer : Nat)
deriving DecidableEq, Repr, Inhabited

/-- What a call gives, or its error, and the session after the call. -/
abbrev Answer := Except Diagnostic Reply × Session

def refused (e : HandleError) : Diagnostic := .cause e.message

def answerHandle (s : Session) (v : Entity) : Action ω Answer := do
  let (h, s) ← Action.ofExcept (orFault (s.give v))
  return (.ok (.handle h), s)

/-- A change of the session; an error leaves it as it is. -/
def change (s : Session) : Except Diagnostic (Reply × Session) → Answer
  | .ok (r, s) => (.ok r, s)
  | .error d => (.error d, s)

def newExecution (s : Session) (h : Nat) : Action ω Answer := do
  match s.kernel h with
  | .error e => return (.error (refused e), s)
  | .ok (id, k) =>
    answerHandle { s with executions := s.executions ++ [(id, Execution.ofKernel k)] }
      (.execution s.executions.length)

def bind (s : Session) (h : Nat) (name : String) (b : Buffer) : Answer :=
  match s.execution h with
  | .error e => (.error (refused e), s)
  | .ok (id, e, k) =>
    match Execution.attach k name b s.buffers.length e with
    | .ok () e => (.ok (.bound s.buffers.length), setExecution { s with buffers := s.buffers ++ [b] } id e)
    | .error d e => (.error d, s.setExecution id e)

def clear (s : Session) (h : Nat) : Answer :=
  s.change do
    let (id, e, _) ← (s.execution h).mapError refused
    return (.done, s.setExecution id e.clear)

/-- The kernel that an execution calls, by its number, with its entry point and the buffers that it
passes. -/
def foreignCall (s : Session) (h : Nat) : Except Diagnostic (Nat × Kernel × Entry × List Nat) := do
  let (id, e, k) ← (s.execution h).mapError refused
  let (f, ids) ← e.arguments k
  return (((s.executions[id]?).map (·.1)).getD 0, k, f, ids)

/-- Empties the slots of an execution and forgets its handle. -/
def releaseExecution (s : Session) (h : Nat) : Answer :=
  s.change do
    let (id, e, _) ← (s.execution h).mapError fun e => .context "cannot release execution" (refused e)
    return (.done, ← ((s.setExecution id e.clear).forget h).mapError refused)

def releaseCode (s : Session) (h : Nat) : Answer :=
  s.change do
    let _ ← (s.code h).mapError refused
    return (.done, ← (s.forget h).mapError refused)

def emit (s : Session) (program : Typed.Program) (opts : CompileOptions) : Action ω Answer := do
  match ← Action.outcome (emitOn opts program) with
  | .ok code => s.answerHandle (.code code)
  | .error d => return (.error d, s)

def build (host : Host ω) (s : Session) (h : Nat) (opts : Kernel.BuildOptions) : Action ω Answer := do
  match s.code h with
  | .error e => return (.error (refused e), s)
  | .ok code =>
    match ← Action.outcome (Kernel.build host code opts) with
    | .error d => return (.error d, s)
    | .ok k => answerHandle { s with kernels := s.kernels ++ [k] } (.kernel s.kernels.length)

def load (host : Host ω) (s : Session) (h : Nat) : Action ω Answer := do
  match s.kernel h with
  | .error e => return (.error (refused e), s)
  | .ok (id, k) =>
    match ← Action.outcome (k.load host) with
    | .ok k => return (.ok .done, s.setKernel id k)
    | .error d => return (.error d, s)

def unload (host : Host ω) (s : Session) (h : Nat) : Action ω Answer := do
  match s.kernel h with
  | .error e => return (.error (refused e), s)
  | .ok (id, k) =>
    let (k, problem) ← k.unload host
    return (problem.elim (.ok .done) .error, s.setKernel id k)

/-- Unloads a kernel, removes its files and forgets its handle. -/
def releaseKernel (host : Host ω) (s : Session) (h : Nat) : Action ω Answer := do
  match s.kernel h with
  | .error e => return (.error (refused e), s)
  | .ok (id, k) =>
    let (k, problem) ← k.clean host
    let s := s.setKernel id k
    match s.forget h with
    | .error e => return (.error (Diagnostic.append problem (refused e)), s)
    | .ok s => return (problem.elim (.ok .done) .error, s)

def execute (call : Caller) (s : Session) (h : Nat) : Action ω Answer := do
  match s.foreignCall h with
  | .error d => return (.error d, s)
  | .ok (id, k, f, ids) =>
    let (f, buffers) ← Action.ofExcept (orFault (call f k.dtype ids s.buffers))
    return (.ok .done, setKernel { s with buffers } id { k with entry := some f })

/-- Carries out a call on a host, where entry points are called in the given way. -/
def stepWith (call : Caller) (host : Host ω) (s : Session) : Call → Action ω Answer
  | .emit program opts => s.emit program opts
  | .newCode c => s.answerHandle (.code c)
  | .source h => return s.change do return (.text (← (s.code h).mapError refused).source, s)
  | .releaseCode h => return s.releaseCode h
  | .build h opts => s.build host h opts
  | .load h => s.load host h
  | .unload h => s.unload host h
  | .releaseKernel h => s.releaseKernel host h
  | .newExecution h => s.newExecution h
  | .bind h name b => return s.bind h name b
  | .clear h => return s.clear h
  | .execute h => s.execute call h
  | .releaseExecution h => return s.releaseExecution h

def step (host : Host ω) (s : Session) (c : Call) : Action ω Answer := s.stepWith callOn host c

end Session

end LoopNest
