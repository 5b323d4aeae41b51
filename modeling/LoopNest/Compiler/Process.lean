import LoopNest.Compiler.Memory

/-!
# Processes

What running code changes: the memory, and what the library keeps between calls. Code can end in
other ways than by giving a value: by going on elsewhere, or by an access to memory that is not
there.
-/

namespace LoopNest.Compiler

/-- How a statement ends. -/
inductive Flow where
  | normal
  /-- The innermost loop or selection is left. -/
  | leave
  /-- The innermost loop goes on with its next round. -/
  | next
  | result (v : Value)
  /-- Code goes on at a label. -/
  | jump (label : Nat)
  /-- The label that was looked for is not in the statement, of which nothing was run. -/
  | absent
deriving Inhabited

/-- Why an expression has no value. -/
inductive Interrupt where
  /-- Memory that is not there is used, or something is done that has no meaning. -/
  | fault
  /-- A statement inside of the expression goes on elsewhere. -/
  | flow (f : Flow)
deriving Inhabited

structure Process where
  memory : Memory
  /-- Functions inside of others whose addresses have been taken, with the frames around them. -/
  closures : Array (Nat × List Nat) := #[]
  /-- The last values of the generator of pseudorandom numbers, once it has started. -/
  random : Array UInt32 := #[]
  /-- Where the next part of a string that is being cut starts. -/
  cut : Nat := 0
  /-- The tables of the library, by name. -/
  tables : List (String × Nat) := []
deriving Inhabited

abbrev Run := EStateM Interrupt Process

namespace Run

def fault : Run α := throw .fault

/-- The value, which has to be there. -/
def demand : Option α → Run α
  | some a => pure a
  | none => fault

/-- Changes the memory, if that is possible. -/
@[inline]
def changeMemory (f : Memory → Option Memory) : Run Unit := fun p =>
  let { memory, closures, random, cut, tables } := p
  match f memory with
  | some memory => .ok () { memory, closures, random, cut, tables }
  | none => .error .fault { memory := default, closures, random, cut, tables }

@[inline]
def read (a : Access) (address : Int) : Run Value := fun p =>
  match p.memory.read? a address.toNat with
  | some v => .ok v p
  | none => .error .fault p

@[inline]
def write (a : Access) (address : Int) (v : Value) : Run Unit :=
  changeMemory fun m => m.write? a address.toNat v

def load (c : Cell) (address : Int) : Run Value := read (.whole c) address

def store (c : Cell) (address : Int) (v : Value) : Run Unit := write (.whole c) address v

def loadBytes (address : Int) (n : Nat) : Run ByteArray := do
  demand ((← get).memory.loadBytes? address.toNat n)

def storeBytes (address : Int) (b : ByteArray) : Run Unit :=
  changeMemory fun m => m.storeBytes? address.toNat b

def loadByte (address : Int) : Run UInt8 := do
  return (← demand ((← get).memory.loadWord? address.toNat 1)).toUInt8

def storeByte (address : Int) (b : UInt8) : Run Unit :=
  changeMemory fun m => m.storeWord? address.toNat 1 b.toUInt64

/-- A new block of the heap; its address is zero if there is no room. -/
def allocate (size : Nat) : Run Nat :=
  modifyGet fun p =>
    let (address, memory) := p.memory.allocate size
    (address, { p with memory })

/-- Gives a block of the heap back. -/
def release (address : Nat) : Run Unit := modify fun p => { p with memory := p.memory.release address }

/-- Makes room on the stack and gives its address. -/
def reserve (size : Nat) : Run Nat := fun p =>
  let { memory, closures, random, cut, tables } := p
  match memory.reserve? size with
  | some (address, memory) => .ok address { memory, closures, random, cut, tables }
  | none => .error .fault { memory := default, closures, random, cut, tables }

/-- The number of bytes of the stack that are in use. -/
def top : Run Nat := return (← get).memory.top

/-- Gives the stack back down to a number of bytes. -/
def setTop (top : Nat) : Run Unit := modify fun p => { p with memory.top := top }

@[inline]
def integer (r : Run Value) : Run Int := do
  match ← r with
  | .integer v => return v
  | _ => fault

/-- The most rounds of a loop. -/
def limit : Nat := 1000000000000000

/-- Repeats a step until it gives a result. The fuel bounds the number of steps. -/
@[specialize]
def rounds (step : Run (Option α)) : Nat → Run α
  | 0 => fault
  | fuel + 1 => fun p =>
    match step p with
    | .ok (some a) p => .ok a p
    | .ok none p => rounds step fuel p
    | .error e p => .error e p

/-- Repeats a step until it gives a result. -/
@[inline]
def repeated (step : Run (Option α)) : Run α := rounds step limit

/-- Code whose way of going on elsewhere is how the statement ends. -/
@[inline]
def caught (r : Run Flow) : Run Flow := fun p =>
  match r p with
  | .error (.flow f) p => .ok f p
  | result => result

end Run

end LoopNest.Compiler
