import LoopNest.Compiler.Mathematics
import Std.Data.HashMap

/-!
# Memory of a process

Addresses are integers. Objects that are always there and blocks of the heap are at low addresses,
the frames of functions are on a stack further up, and functions and labels have addresses without
bytes. Numbers are kept with their lowest byte first.
-/

namespace LoopNest.Compiler

/-- The bytes of a process. -/
structure Memory where
  /-- Objects that are always there, and blocks of the heap. -/
  low : ByteArray
  /-- The frames of functions. -/
  stack : ByteArray
  /-- The number of bytes of the stack that are in use. -/
  top : Nat := 0
  /-- The blocks that have been given back, by their sizes. -/
  free : Std.HashMap Nat (List Nat) := {}
deriving Inhabited

namespace Memory

/-- The first address that can be used. -/
def lowest : Nat := 4096

/-- The address of the first byte of the stack. -/
def stackBase : Nat := 0x40000000

/-- The most bytes of the stack. -/
def stackLimit : Nat := 0x800000

/-- The address from which on functions are found. -/
def functionBase : Nat := 0x60000000

/-- The address from which on labels are found. -/
def labelBase : Nat := 0x68000000

/-- The address from which on functions inside of others are found. -/
def closureBase : Nat := 0x70000000

/-- The most bytes of the objects of a library. -/
def loadLimit : Nat := Nat.pow 2 37

/-- The distance between addresses of functions. -/
def functionStep : Nat := 16

/-- Some zero bytes. -/
def zeros (n : Nat) : ByteArray :=
  if n < 64 then ByteArray.mk (Array.replicate n 0)
  else
    let half := zeros (n / 2)
    if n % 2 = 0 then half ++ half else (half ++ half).push 0
termination_by n
decreasing_by omega

/-- The number that is made of some bytes. -/
def word (b : ByteArray) (i : Nat) : Nat → UInt64
  | 0 => 0
  | n + 1 => (b.get! i).toUInt64 ||| (word b (i + 1) n <<< 8)

/-- Bytes with some of them replaced by those of a number. -/
def setWord (b : ByteArray) (i : Nat) (v : UInt64) : Nat → ByteArray
  | 0 => b
  | n + 1 => setWord (b.set! i v.toUInt8) (i + 1) (v >>> 8) n

/-- Whether some bytes are among those at low addresses. -/
def isLow (m : Memory) (address n : Nat) : Bool := lowest ≤ address && address + n ≤ m.low.size

def isStacked (m : Memory) (address n : Nat) : Bool :=
  stackBase ≤ address && address + n ≤ stackBase + m.stack.size

def loadWord? (m : Memory) (address n : Nat) : Option UInt64 :=
  if m.isLow address n then some (word m.low address n)
  else if m.isStacked address n then some (word m.stack (address - stackBase) n)
  else none

def storeWord? (m : Memory) (address n : Nat) (v : UInt64) : Option Memory :=
  if m.isLow address n then some { m with low := setWord m.low address v n }
  else if m.isStacked address n then
    some { m with stack := setWord m.stack (address - stackBase) v n }
  else none

def loadBytes? (m : Memory) (address n : Nat) : Option ByteArray :=
  if n = 0 then some ByteArray.empty
  else if m.isLow address n then some (m.low.extract address (address + n))
  else if m.isStacked address n then
    some (m.stack.extract (address - stackBase) (address - stackBase + n))
  else none

def storeBytes? (m : Memory) (address : Nat) (b : ByteArray) : Option Memory :=
  if b.size = 0 then some m
  else if m.isLow address b.size then
    some { m with low := b.copySlice 0 m.low address b.size }
  else if m.isStacked address b.size then
    some { m with stack := b.copySlice 0 m.stack (address - stackBase) b.size }
  else none

/-- The 80 bits of a fraction of the extended type: its sign, an exponent, and a mantissa whose
first bit is written out. -/
def extendedBits (v : Float) : Nat :=
  let bits := v.toBits.toNat
  let sign := bits / Nat.pow 2 63
  let exponent := bits / Nat.pow 2 52 % Nat.pow 2 11
  let rest := bits % Nat.pow 2 52
  let (e, m) :=
    if exponent = 2047 then (32767, Nat.pow 2 63 + rest * Nat.pow 2 11)
    else if exponent ≠ 0 then (exponent + 15360, Nat.pow 2 63 + rest * Nat.pow 2 11)
    else if rest = 0 then (0, 0)
    else (15309 + rest.log2, rest * Nat.pow 2 (63 - rest.log2))
  sign * Nat.pow 2 79 + e * Nat.pow 2 64 + m

/-- The fraction with 80 bits of the extended type. -/
def ofExtendedBits (bits : Nat) : Float :=
  let e : Nat := bits / Nat.pow 2 64 % Nat.pow 2 15
  let m := bits % Nat.pow 2 64
  let magnitude : Float :=
    if e = 32767 then (if m % Nat.pow 2 63 = 0 then 1 / 0 else 0 / 0)
    else (Float.ofNat m).scaleB ((e : Int) - 16446)
  if Nat.pow 2 79 ≤ bits then -magnitude else magnitude

def ofWord (k : Integer) (v : UInt64) : Int :=
  if k.bytes = 8 && k.isSigned then v.toInt64.toInt else k.wrap v.toNat

/-- The lowest bits of an integer. -/
def toWord (v : Int) : UInt64 :=
  if 0 ≤ v && v < Nat.pow 2 63 then v.toNat.toUInt64 else (Integer.wrapBits false 64 v).toNat.toUInt64

def load? (m : Memory) (c : Cell) (address : Nat) : Option Value :=
  match c with
  | .nothing => some .nothing
  | .integer k =>
    if k.bytes = 16 then do
      let a ← m.loadWord? address 8
      let b ← m.loadWord? (address + 8) 8
      return .integer (k.wrap (a.toNat + b.toNat * Nat.pow 2 64))
    else (m.loadWord? address k.bytes).map fun w => .integer (ofWord k w)
  | .fraction .float => (m.loadWord? address 4).map fun w => .fraction (Float32.ofBits w.toUInt32).toFloat
  | .fraction .double => (m.loadWord? address 8).map fun w => .fraction (Float.ofBits w)
  | .fraction _ => do
    let a ← m.loadWord? address 8
    let b ← m.loadWord? (address + 8) 2
    return .fraction (ofExtendedBits (a.toNat + b.toNat * Nat.pow 2 64))
  | .block n => (m.loadBytes? address n).map .block

def store? (m : Memory) (c : Cell) (address : Nat) (v : Value) : Option Memory :=
  match c, v with
  | .nothing, _ => some m
  | .integer k, .integer v =>
    if k.bytes = 16 then do
      let m ← m.storeWord? address 8 (toWord v)
      m.storeWord? (address + 8) 8 (toWord (v / Nat.pow 2 64))
    else m.storeWord? address k.bytes (toWord v)
  | .fraction .float, .fraction v => m.storeWord? address 4 v.toFloat32.toBits.toUInt64
  | .fraction .double, .fraction v => m.storeWord? address 8 v.toBits
  | .fraction _, .fraction v => do
    let bits := extendedBits v
    let m ← m.storeWord? address 8 (bits % Nat.pow 2 64).toUInt64
    m.storeWord? (address + 8) 2 (bits / Nat.pow 2 64).toUInt64
  | .block _, .block b => m.storeBytes? address b
  | _, _ => none

def bitField (k : Integer) (width : Nat) (v : Int) : Int := Integer.wrapBits k.isSigned width v

/-- The value at an address, as an access says. -/
def read? (m : Memory) (a : Access) (address : Nat) : Option Value :=
  match a with
  | .whole c => m.load? c address
  | .bits k first width => do
    let bytes := (first + width + 7) / 8
    let w ← m.loadWord? address (min bytes 8)
    return .integer (bitField k width (w.toNat / Nat.pow 2 first : Nat))

/-- Writes a value to an address, as an access says. -/
def write? (m : Memory) (a : Access) (address : Nat) (v : Value) : Option Memory :=
  match a, v with
  | .whole c, v => m.store? c address v
  | .bits _ first width, .integer v => do
    let bytes := min ((first + width + 7) / 8) 8
    let old := (← m.loadWord? address bytes).toNat
    let field := (Integer.wrapBits false width v).toNat
    let kept := old % Nat.pow 2 first + old / Nat.pow 2 (first + width) * Nat.pow 2 (first + width)
    m.storeWord? address bytes (kept + field * Nat.pow 2 first).toUInt64
  | _, _ => none

/-- The value that an access gives back for a value that was written. -/
def written (a : Access) (v : Value) : Value :=
  match a, v with
  | .bits k _ width, .integer v => .integer (bitField k width v)
  | _, v => v

/-- The number of bytes in front of a block of the heap, where its size is kept. -/
def header : Nat := 16

/-- The most bytes of the heap. -/
def heapLimit : Nat := 0x30000000

/-- A new block of the heap. There is none if it is too large. -/
def allocate (m : Memory) (size : Nat) : Nat × Memory :=
  let room := roundUp (max size 1) 16
  match m.free.get? room with
  | some (address :: rest) => (address, { m with free := m.free.insert room rest })
  | _ =>
    let start := roundUp m.low.size 16
    if heapLimit < start + header + room then (0, m)
    else
      let low := m.low ++ zeros (start - m.low.size + header + room)
      (start + header, { m with low := setWord low (start + 8) room.toUInt64 8 })

/-- The number of bytes of a block of the heap. -/
def blockSize (m : Memory) (address : Nat) : Nat := ((m.loadWord? (address - 8) 8).map (·.toNat)).getD 0

/-- Gives a block back. -/
def release (m : Memory) (address : Nat) : Memory :=
  if address = 0 then m
  else
    let room := m.blockSize address
    { m with free := m.free.insert room (address :: (m.free.get? room).getD []) }

/-- Makes room on the stack and gives its address. There is none if the stack is full. -/
def reserve? (m : Memory) (size : Nat) : Option (Nat × Memory) :=
  let base := roundUp m.top 16
  let top := base + size
  if stackLimit < top then none
  else if top ≤ m.stack.size then some (stackBase + base, { m with top })
  else
    let more := max (top - m.stack.size) (max 4096 m.stack.size)
    some (stackBase + base, { m with stack := m.stack ++ zeros more, top })

end Memory

end LoopNest.Compiler
