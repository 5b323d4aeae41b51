import LoopNest.Compiler.Process

/-!
# Functions of the library

A function of the library takes the values of its arguments and a way to call functions by their
addresses. What it has no rule for leaves the process as it is.
-/

namespace LoopNest.Compiler

/-- Calls the function at an address. -/
abbrev Callback := Int → List (Cell × Value) → Run Value

/-- A function of the library. -/
abbrev Handler := Callback → List Value → Run Value

namespace Library

def integerOf : Value → Int
  | .integer v => v
  | _ => 0

def ofIntegers (f : List Int → Run Value) : Handler := fun _ args => f (args.map integerOf)

/-- A function of one integer that leaves the process as it is. -/
def pureInteger (f : Int → Int) : Handler := fun _ args =>
  pure (.integer (f (args.head?.elim 0 integerOf)))

def given (v : Int) : Run Value := pure (.integer v)

/-- The bytes from an address up to a zero, or as many as given. -/
def bytesUpTo (address : Int) (done : List UInt8) : Nat → Run (List UInt8)
  | 0 => pure done.reverse
  | n + 1 => do
    let b ← Run.loadByte address
    if b = 0 then return done.reverse else bytesUpTo (address + 1) (b :: done) n

/-- The most bytes of a string. -/
def longest : Nat := 0x40000000

def stringAt (address : Int) : Run (List UInt8) := bytesUpTo address [] longest

/-- The string at an address, of which at most some bytes are looked at. -/
def stringWithin (address n : Int) : Run (List UInt8) := bytesUpTo address [] n.toNat

def charsOf (bytes : List UInt8) : List Char := bytes.map fun b => Char.ofNat b.toNat

def bytesOf (cs : List Char) : List UInt8 := cs.map fun c => c.toNat.toUInt8

/-- Writes bytes and a zero after them. -/
def storeString (address : Int) (bytes : List UInt8) : Run Unit :=
  Run.storeBytes address (ByteArray.mk (bytes ++ [0]).toArray)

def newString (bytes : List UInt8) : Run Value := do
  let a ← Run.allocate (bytes.length + 1)
  if a = 0 then given 0
  else
    storeString a bytes
    given a

/-- The address of a table, which is made when it is asked for the first time. -/
def tableAt (name : String) (make : Run Nat) : Run Nat := do
  match (← get).tables.lookup name with
  | some a => return a
  | none =>
    let a ← make
    modify fun p => { p with tables := (name, a) :: p.tables }
    return a

end Library

end LoopNest.Compiler
