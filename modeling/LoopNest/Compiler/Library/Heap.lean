import LoopNest.Compiler.Library.Basic

/-!
# Blocks of the heap

Functions that make blocks of the heap, change their sizes and give them back.
-/

namespace LoopNest.Compiler.Library

def newBlock (size : Int) : Run Value := do given (← Run.allocate size.toNat)

/-- A new block of zeros. -/
def newZeros (size : Int) : Run Value := do
  let a ← Run.allocate size.toNat
  if a ≠ 0 then Run.storeBytes a (Memory.zeros size.toNat)
  given a

/-- A block of another size that starts with the bytes of a block, which is given back. -/
def resized (address size : Int) : Run Value := do
  if address = 0 then newBlock size
  else
    let old := (← get).memory.blockSize address.toNat
    let new ← Run.allocate size.toNat
    if new = 0 then given 0
    else
      Run.storeBytes new (← Run.loadBytes address (min old size.toNat))
      Run.release address.toNat
      given new

/-- A new block at a multiple of a number. -/
def alignedBlock (align size : Int) : Run Nat := do
  let align := max align.toNat 16
  if align = 16 then Run.allocate size.toNat
  else
    let a ← Run.allocate (size.toNat + 2 * align)
    if a = 0 then return 0
    let placed := roundUp (a + Memory.header) align
    Run.store (.integer .unsignedLong) (placed - 8 : Nat) (.integer (roundUp (max size.toNat 1) 16))
    return placed

def heap : List (String × Handler) :=
  [("malloc", ofIntegers fun
      | [n] => newBlock n
      | _ => Run.fault),
    ("calloc", ofIntegers fun
      | [n, size] => newZeros (n * size)
      | _ => Run.fault),
    ("realloc", ofIntegers fun
      | [a, size] => resized a size
      | _ => Run.fault),
    ("reallocarray", ofIntegers fun
      | [a, n, size] => resized a (n * size)
      | _ => Run.fault),
    ("free", ofIntegers fun
      | [a] => do
        Run.release a.toNat
        return .nothing
      | _ => Run.fault),
    ("aligned_alloc", ofIntegers fun
      | [align, n] => do given (← alignedBlock align n)
      | _ => Run.fault),
    ("memalign", ofIntegers fun
      | [align, n] => do given (← alignedBlock align n)
      | _ => Run.fault),
    ("valloc", ofIntegers fun
      | [n] => do given (← alignedBlock 4096 n)
      | _ => Run.fault),
    ("posix_memalign", ofIntegers fun
      | [place, align, n] => do
        Run.store Cell.pointer place (.integer (← alignedBlock align n))
        given 0
      | _ => Run.fault),
    ("malloc_usable_size", ofIntegers fun
      | [a] => do given ((← get).memory.blockSize a.toNat)
      | _ => Run.fault),
    ("alloca", ofIntegers fun
      | [n] => do given (← Run.allocate n.toNat)
      | _ => Run.fault)]

end LoopNest.Compiler.Library
