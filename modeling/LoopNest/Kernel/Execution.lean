import LoopNest.C.Run
import LoopNest.Kernel.Basic

/-!
# Executions

An execution holds a slot for each argument of a kernel. Buffers are bound to the slots by the
names of the arguments, and the kernel is called when every slot has a buffer. Elements are in single
or double precision and literals in double precision: an operation on two values in single precision is
carried out in single precision, any other one in double precision.
-/

namespace LoopNest

/-! ## Precision -/

/-- A value in one of two precisions. -/
inductive Mixed where
  | single (x : Float32)
  | double (x : Float)
deriving Inhabited

namespace Mixed

def toFloat : Mixed → Float
  | .single x => x.toFloat
  | .double x => x

/-- The value rounded to single precision. -/
def toSingle : Mixed → Mixed
  | .single x => .single x
  | .double x => .single x.toFloat32

/-- An operation in the precision of its operands. -/
def lift (single : Float32 → Float32 → Float32) (double : Float → Float → Float) (x y : Mixed) :
    Mixed :=
  match x, y with
  | .single x, .single y => .single (single x y)
  | x, y => .double (double x.toFloat y.toFloat)

instance : Scalar Mixed where
  zero := .single 0
  add := lift (· + ·) (· + ·)
  sub := lift (· - ·) (· - ·)
  mul := lift (· * ·) (· * ·)
  div := lift (· / ·) (· / ·)
  literal := .double

end Mixed

/-- A number as an element of a type: single precision rounds it. -/
def ElementType.convert (t : ElementType) (x : Float) : Float :=
  if t = .float32 then x.toFloat32.toFloat else x

/-- Runs a kernel on arguments of an element type. -/
def C.Function.call (f : C.Function) (t : ElementType) (args : List (List Float)) :
    Option (List (List Float)) :=
  if t = .float32 then do
    let args := args.map fun a => (a.map fun x => Mixed.single x.toFloat32).toArray
    return (← f.run Mixed.toSingle (fun _ _ => 0) args).map fun a => a.toList.map Mixed.toFloat
  else do
    return (← f.run id (fun _ _ => 0) (args.map List.toArray)).map Array.toList

/-! ## Slots -/

/-- Memory that is shared with a kernel. -/
structure Buffer where
  dtype : ElementType
  data : List Float
deriving Inhabited

/-- The slots of a kernel, with the numbers of the buffers in them. -/
structure Execution where
  slots : List (Option Nat)
  filled : Nat := 0
  /-- The number of buffers that must not move. -/
  pins : Nat := 0
deriving DecidableEq, Repr, Inhabited

def Execution.ofKernel (k : Kernel) : Execution :=
  { slots := List.replicate k.formals.length none }

/-- An operation on an execution. What it changed stays changed when it fails. -/
abbrev Binding := EStateM Diagnostic Execution

/-- The execution after an operation that succeeded. -/
def Binding.after (a : Binding Unit) (e : Execution) : Except Diagnostic Execution :=
  match a e with
  | .ok () e => .ok e
  | .error d _ => .error d

namespace Execution

def place (k : Kernel) (name : String) : Binding Nat :=
  match k.position name with
  | .ok pos => return pos
  | .error d => throw d

/-- Puts a buffer into the slot of an argument. No buffer stands for a null pointer. -/
def fill (k : Kernel) (name : String) (buffer : Option Nat) : Binding Unit := do
  let pos ← place k name
  match buffer with
  | none => throw (.cause s!"cannot bind a null buffer to {name}")
  | some id =>
    modify fun e => if e.slots[pos]? = some none then { e with filled := e.filled + 1 } else e
    modify fun e => { e with slots := e.slots.set pos (some id) }

/-- Keeps the memory of a buffer in place, which is then given by its number. An empty buffer has no
memory. -/
def pin (b : Buffer) (id : Nat) : Binding (Option Nat) := do
  if b.data.isEmpty then return none
  else
    modify fun e => { e with pins := e.pins + 1 }
    return some id

/-- Binds a buffer, given with its number, to an argument. Its element type and its length have to
be those of the argument, and it is pinned unless it is empty. -/
def attach (k : Kernel) (name : String) (b : Buffer) (id : Nat) : Binding Unit := do
  let pos ← place k name
  let size := ((k.formals[pos]?).map (·.dims.size)).getD 0
  if b.dtype ≠ k.dtype then
    throw (.cause s!"cannot bind a {b.dtype.name} buffer to {name}: kernel expects {k.dtype.name}")
  else if (b.data.length : Int) ≠ size then
    throw (.cause (s!"cannot bind a buffer of {b.data.length} elements to {name}: "
      ++ s!"kernel expects {size} elements"))
  else fill k name (← pin b id)

def bindSlot (k : Kernel) (e : Execution) (name : String) (buffer : Option Nat) :
    Except Diagnostic Execution :=
  (fill k name buffer).after e

def bind (k : Kernel) (e : Execution) (name : String) (b : Buffer) (id : Nat) :
    Except Diagnostic Execution :=
  (attach k name b id).after e

/-- Empties all slots and releases the pinned memory. -/
def clear (e : Execution) : Execution := { slots := e.slots.map fun _ => none }

/-- The function to call and the buffers to pass: the kernel is loaded and every slot has a
buffer. -/
def arguments (k : Kernel) (e : Execution) : Except Diagnostic (Entry × List Nat) :=
  match k.entry with
  | none => .error (.context s!"cannot execute {k.funcName}" .notLoaded)
  | some f =>
    if e.filled ≠ e.slots.length then
      .error (.context s!"{e.filled} arguments out of {e.slots.length} bound" .unbound)
    else .ok (f, e.slots.filterMap id)

end Execution

namespace Buffer

/-- The number of bytes of an element and its bits. -/
def wordOf (t : ElementType) (x : Float) : Nat × UInt64 :=
  if t = .float32 then (4, x.toFloat32.toBits.toUInt64) else (8, x.toBits)

/-- The bytes of a buffer, with the lowest byte of each element first. -/
def toBytes (b : Buffer) : ByteArray :=
  let size := b.dtype.bytes
  let (bytes, _) := b.data.foldl (fun (bytes, i) x =>
    let (n, word) := wordOf b.dtype x
    (Compiler.Memory.setWord bytes i word n, i + n))
    (Compiler.Memory.zeros (size * b.data.length), 0)
  bytes

def withBytes (b : Buffer) (bytes : ByteArray) : Buffer :=
  let element (i : Nat) : Float :=
    if b.dtype = .float32 then (Float32.ofBits (Compiler.Memory.word bytes (4 * i) 4).toUInt32).toFloat
    else Float.ofBits (Compiler.Memory.word bytes (8 * i) 8)
  { b with data := (List.range b.data.length).map element }

end Buffer

/-- What calls entry points on some of the buffers, for elements of a type. It gives the entry point
after the call, which may have kept something, and the buffers, or nothing if the call faults. -/
abbrev Caller := Entry → ElementType → List Nat → List Buffer → Option (Entry × List Buffer)

def callOn : Caller := fun entry t ids buffers =>
  match entry with
  | .other => some (.other, buffers)
  | .kernel f => do
    let args ← ids.mapM fun id => (buffers[id]?).map (·.data)
    let results ← f.call t args
    return (.kernel f,
      (ids.zip results).foldl (fun bs (id, data) => bs.modify id ({ · with data })) buffers)
  | .foreign library symbol => do
    let (library, bytes) ← library.call? symbol ids (buffers.map (·.toBytes)).toArray
    return (.foreign library symbol, (buffers.zip bytes.toList).map fun (b, bytes) => b.withBytes bytes)

end LoopNest
