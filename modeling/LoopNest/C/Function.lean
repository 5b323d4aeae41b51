import LoopNest.C.Ast
import LoopNest.Options
import LoopNest.Symbol
import LoopNest.Text.Lines

/-!
# Kernel functions

A kernel is a C function over the arrays of its formal arguments, together with an entry point
that takes the arguments as an array of pointers. The buffers of the kernel are allocated at the
start of the function and freed at its end.
-/

namespace LoopNest.C

structure Function where
  name : String
  /-- The C type of the elements. -/
  element : String
  layout : Layout
  params : List String
  /-- The tensors that the kernel allocates, with their element counts. -/
  buffers : List (String × Int)
  body : List Stmt
deriving Inhabited

namespace Function

def entry (f : Function) : String := f.name ++ "_entry"

def renderParam (f : Function) (tensor : String) : String := f.element ++ " *" ++ arrayName tensor

def renderAlloc (f : Function) : String × Int → String
  | (tensor, size) =>
    "  " ++ f.renderParam tensor ++ " = (" ++ f.element ++ " *)malloc(" ++ toString size
      ++ " * sizeof(" ++ f.element ++ "));"

/-- The lines of the body; an empty body is an empty line. -/
def renderBody (f : Function) : List String :=
  match Stmt.renderAll f.element 0 f.body with
  | [] => [""]
  | ls => ls

/-- The argument at a position, as the entry point passes it. -/
def renderArg (f : Function) (i : Nat) : String := "(" ++ f.element ++ " *)args[" ++ toString i ++ "]"

def lines (f : Function) : List String :=
  ["/* Generated by tensorc (" ++ f.layout.name ++ "-major layout). */", "#include <stdlib.h>", "",
    "void " ++ f.name ++ "(" ++ ", ".intercalate (f.params.map f.renderParam) ++ ") \x7b"]
    ++ f.buffers.map f.renderAlloc ++ f.renderBody
    ++ f.buffers.map (fun b => "  free(" ++ arrayName b.1 ++ ");")
    ++ ["\x7d", "", "void " ++ f.entry ++ "(void **args) \x7b",
      "  " ++ f.name ++ "("
        ++ ", ".intercalate ((List.range f.params.length).map f.renderArg) ++ ");", "\x7d"]

def render (f : Function) : String := Text.unlines f.lines

end Function

/-- An argument of a kernel. -/
structure Formal where
  name : String
  shape : Shape
  /-- The kernel reads the argument before it writes it. -/
  input : Bool
  /-- The kernel writes the argument. -/
  output : Bool
deriving DecidableEq, Repr, Inhabited

def Formal.ofSymbol (s : Symbol) : Formal := ⟨s.name, s.shape, s.role.isInput, s.role.isOutput⟩

/-- The code of a kernel with what is needed to call it. -/
structure Code where
  source : String
  funcName : String
  entry : String
  formals : List Formal
  dtype : ElementType
  /-- The function that the source is the text of, when it is known. -/
  function : Option Function := none
deriving Inhabited

/-- The position of an argument by its name; the first one counts. -/
def Code.position? (c : Code) (name : String) : Option Nat :=
  c.formals.findIdx? (·.name == name)

end LoopNest.C
