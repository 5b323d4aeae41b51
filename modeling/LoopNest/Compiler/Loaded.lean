import LoopNest.Compiler.SharedLibrary

/-!
# Loaded libraries

A library that is loaded has its objects in memory, where they keep their values from one call to
the next. The buffers that functions are called with are in the same memory; every call starts with
what they hold outside, and changes them there when it ends.
-/

namespace LoopNest.Compiler

structure Loaded where
  image : Image
  process : Process
  /-- The names that can be found, with their symbols. -/
  exports : List (String × Nat)
  /-- The buffers in memory, with their addresses. -/
  shared : List (Nat × Nat) := []
deriving Inhabited

namespace SharedLibrary

/-- The number of bytes of an object. Of an object of another library only an address is known. -/
def sizeOf (l : SharedLibrary) (s : Symbol) : Nat :=
  if s.isPresent then
    let size := s.type.sizeOf l.records
    (if s.type.isOpenArray then max size ((s.type.innermost {}).2.sizeOf l.records) else size) + s.extra
  else max 8 (s.type.sizeOf l.records)

/-- The addresses of symbols, and the end of all objects. -/
def layOut (l : SharedLibrary) : Array Nat × Nat :=
  l.symbols.zipIdx.foldl (fun (addresses, free) (s, id) =>
    let isOwn := (l.homes[id]?.join).all (· = id)
    if !isOwn || (s.isWeak && !s.isPresent) then (addresses.push 0, free)
    else if s.type.isFunction then
      let isNested := s.code.any (0 < ·.around)
      (addresses.push (if isNested then 0 else Memory.functionBase + id * Memory.functionStep), free)
    else
      let start := roundUp free (max 16 (max s.align (s.type.alignOf l.records)))
      (addresses.push start, start + l.sizeOf s)) (#[], Memory.lowest)

/-- The functions of symbols. A function of the library of the process comes before one of the same
name. -/
def routines (l : SharedLibrary) : Array (Option Routine) :=
  l.symbols.zipIdx.map fun (s, id) =>
    if !s.type.isFunction then none
    else match l.homes[id]?.join with
      | some home =>
        l.symbols[home]?.bind fun t =>
          let isSeen := !t.isStatic && t.isShown && t.isHidden ≠ some true
          if isSeen && Library.standardNames.contains t.name then some (.library t.name)
          else t.code.map .code
      | none => some (.library s.name)

def valueOf (addresses : Array Nat) : Constant → Value
  | .integer v => .integer v
  | .fraction v => .fraction v
  | .address id offset => .integer (addresses.getD id 0 + offset)
  | .label id => .integer (Memory.labelBase + id * Memory.functionStep : Nat)

/-- The memory with the values that objects start with. Objects of other libraries hold their own
addresses. -/
def memory (l : SharedLibrary) (addresses : Array Nat) (size : Nat) : Memory :=
  let start : Memory :=
    { low := Memory.zeros (if size ≤ Memory.heapLimit then size else 0), stack := Memory.zeros 4096 }
  (l.symbols.zip addresses).foldl (fun m (s, base) =>
    if s.type.isFunction || base = 0 then m
    else if !s.isPresent then (m.store? Cell.pointer base (.integer base)).getD m
    else s.data.foldl (fun m (offset, access, c) =>
      (m.write? access (base + offset) (valueOf addresses c)).getD m) m) start

/-- The library in a new process, after the functions that run at the start. There is none if a name
is not found, or if there is no room for its objects. -/
def load? (l : SharedLibrary) : Option Loaded :=
  let (own, size) := l.layOut
  if !l.isLoadable || Memory.loadLimit < size then none
  else
    let addresses := own.zipIdx.map fun (a, id) =>
      match l.homes[id]?.join with
      | some home => if home = id then a else own.getD home 0
      | none => a
    let image : Image := { addresses, routines := l.routines }
    let process : Process := { memory := l.memory addresses size }
    let process := l.symbols.zipIdx.foldl (fun process (s, id) =>
      if s.isConstructor && s.isDefined then
        match image.call id [] process with
        | .ok _ process => process
        | .error _ process => process
      else process) process
    some { image, process, exports := l.exports }

end SharedLibrary

namespace Loaded

/-- Puts buffers into memory that are not there. -/
def place (buffers : Array ByteArray) (shared : List (Nat × Nat)) : List Nat → Run (List (Nat × Nat))
  | [] => pure shared
  | id :: ids => do
    if (shared.lookup id).isSome then place buffers shared ids
    else
      let address ← Run.allocate (buffers.getD id .empty).size
      place buffers ((id, address) :: shared) ids

/-- Calls a function with an array of the addresses of buffers, and gives the buffers after the
call. -/
def run (l : Loaded) (entry : Nat) (args : List Nat) (buffers : Array ByteArray) :
    Run (List (Nat × Nat) × Array ByteArray) := do
  let shared ← place buffers l.shared args
  shared.forM fun (id, address) => Run.storeBytes address (buffers.getD id .empty)
  let before ← Run.top
  let pointers ← FunctionCode.spread
    (args.map fun id => (Cell.pointer, .integer ((shared.lookup id).getD 0)))
  let _ ← l.image.call entry [(Cell.pointer, .integer pointers)]
  Run.setTop before
  let changed ← shared.foldlM (fun (buffers : Array ByteArray) (id, address) => do
    let b ← Run.loadBytes address (buffers.getD id .empty).size
    return buffers.setIfInBounds id b) buffers
  return (shared, changed)

/-- Calls a function of a library with buffers. There is no result if it faults. -/
def call? (l : Loaded) (entry : Nat) (args : List Nat) (buffers : Array ByteArray) :
    Option (Loaded × Array ByteArray) :=
  match l.run entry args buffers l.process with
  | .ok (shared, buffers) process => some ({ l with process, shared }, buffers)
  | .error _ _ => none

end Loaded

end LoopNest.Compiler
