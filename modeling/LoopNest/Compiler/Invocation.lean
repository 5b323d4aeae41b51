import LoopNest.Compiler.Library.Heap
import LoopNest.Compiler.Library.Number
import LoopNest.Compiler.Library.Output
import LoopNest.Compiler.Library.Sorting
import LoopNest.Compiler.Library.Text
import LoopNest.Compiler.Machine

/-!
# Calls of functions

A call makes room for the frame of a function, puts the arguments into the places of the parameters,
and runs the body. The arguments beyond the parameters are put behind each other, and the frame
starts with their address. The functions that every process has are found by name.
-/

namespace LoopNest.Compiler

/-! ## The library -/

namespace Library

def ending : List String :=
  ["abort", "exit", "_exit", "_Exit", "quick_exit", "__assert_fail", "__builtin_trap",
    "__builtin_unreachable", "raise", "longjmp", "__stack_chk_fail"]

def table : Std.HashMap String Handler :=
  Std.HashMap.ofList (heap ++ bytes ++ strings ++ characters ++ readers ++ integers ++ randoms
    ++ fractions ++ output ++ sorting
    ++ [("__errno_location", ofIntegers fun _ => do given (← tableAt "errno" (Run.allocate 16)))]
    ++ ending.map fun name => (name, fun _ _ => Run.fault))

/-- The name of a function of the compiler without the words in front of it. -/
def plainOf (name : String) : String :=
  if name.startsWith "__builtin_" then String.ofList (name.toList.drop 10) else name

/-- Computes a function of the library. One that is not computed gives nothing. -/
def compute (name : String) : Handler := fun callback args =>
  match table.get? name with
  | some f => f callback args
  | none =>
    match table.get? (plainOf name) with
    | some f => f callback args
    | none =>
      let numbers := args.filterMap fun
        | .fraction v => some v
        | _ => none
      match if numbers.length = args.length then Mathematics.value? (plainOf name) numbers else none with
      | some v => pure (.fraction v)
      | none => pure .nothing

/-- Calls a function of the library. It does nothing if it cannot make use of its arguments. -/
def call (name : String) : Handler := fun callback args process =>
  match compute name callback args process with
  | .ok v process => .ok v process
  | .error e changed => if ending.contains name then .error e changed else .ok .nothing process

end Library

/-! ## Functions of a program -/

namespace FunctionCode

/-- Puts arguments into the places of parameters. -/
def bind (base : Nat) : List (Nat × Cell) → List (Cell × Value) → Run Unit
  | (offset, c) :: params, (_, v) :: args => do
    Run.store c (base + offset : Nat) (v.convert c)
    bind base params args
  | _, _ => pure ()

/-- The places of arguments behind each other, and the number of bytes that they take. -/
def layOut (start : Nat) : List (Cell × Value) → List (Nat × Cell × Value) × Nat
  | [] => ([], start)
  | (c, v) :: args =>
    let (size, align) := match c with
      | .integer k => (k.bytes, k.bytes)
      | .fraction k => (k.bytes, k.bytes)
      | .block n => (n, 8)
      | .nothing => (0, 8)
    let place := roundUp start (max 8 align)
    let (rest, stop) := layOut (place + roundUp size 8) args
    ((place, c, v) :: rest, stop)

/-- Puts arguments behind each other and gives their address. -/
def spread (args : List (Cell × Value)) : Run Nat := do
  let (places, size) := layOut 0 args
  let base ← Run.reserve size
  places.forM fun (place, c, v) => Run.store c (base + place : Nat) v
  return base

/-- Calls a function with the frames around it and its arguments. -/
def call (ctx : Context) (f : FunctionCode) (parents : List Nat) (args : List (Cell × Value)) :
    Run Value := do
  let before ← Run.top
  let base ← Run.reserve f.frameSize
  bind base f.params args
  if f.isVariadic then
    Run.store Cell.pointer base (.integer (← spread (args.drop f.params.length)))
  let flow ← f.body.run ctx (base :: parents) none
  Run.setTop before
  match flow with
  | .result v => return v
  | _ => return .nothing

end FunctionCode

namespace Image

/-- Calls the function of a symbol. The fuel bounds how deep calls are nested. -/
def invoke (image : Image) : Nat → Nat → List Nat → List (Cell × Value) → Run Value
  | 0, _, _, _ => Run.fault
  | fuel + 1, id, parents, args =>
    match image.routines[id]? with
    | some (some (.code f)) => f.call { image, call := image.invoke fuel } parents args
    | some (some (.library name)) =>
      let callback : Callback := fun address args => do
        let (id, parents) ← functionAt address
        image.invoke fuel id parents args
      Library.call name callback (args.map (·.2))
    | _ => Run.fault

/-- The most calls that can be inside of each other. -/
def depth : Nat := 1000000

/-- Calls the function of a symbol from outside. -/
def call (image : Image) (id : Nat) (args : List (Cell × Value)) : Run Value :=
  image.invoke depth id [] args

end Image

end LoopNest.Compiler
