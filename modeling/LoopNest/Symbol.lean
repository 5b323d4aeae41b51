import LoopNest.Data.OrderedMap
import LoopNest.Index.Shape

/-!
# Symbols

A program declares each of its tensors with a shape and a role. Inputs and outputs are the
formal arguments of the kernel; local and synthesized tensors are its own buffers.
-/

namespace LoopNest

/-- The role of a tensor, as a set of flags: 1 for inputs, 2 for outputs and 4 for tensors
introduced by the compiler. -/
structure Role where
  flags : UInt8
deriving DecidableEq, Repr, Inhabited

namespace Role

def «local» : Role := ⟨0⟩
def input : Role := ⟨1⟩
def output : Role := ⟨2⟩
def inout : Role := ⟨3⟩
def synthesized : Role := ⟨4⟩

/-- The caller provides the tensor. -/
def isInput (r : Role) : Bool := r.flags &&& 1 != 0

/-- The tensor is returned to the caller. -/
def isOutput (r : Role) : Bool := r.flags &&& 2 != 0

/-- The tensor is an argument of the kernel. -/
def isFormal (r : Role) : Bool := r.flags &&& 3 != 0

/-- The tensor was introduced by the compiler. -/
def isSynthesized (r : Role) : Bool := r.flags &&& 4 != 0

/-- The name of a role, or its number when the combination has no name. -/
def name (r : Role) : String :=
  if r = .local then "local"
  else if r = .synthesized then "synthesized"
  else if r = .inout then "inout"
  else if r = .input then "input"
  else if r = .output then "output"
  else s!"kind({r.flags.toNat})"

def ofName? : String → Option Role
  | "local" => some .local
  | "synthesized" => some .synthesized
  | "inout" => some .inout
  | "input" => some .input
  | "output" => some .output
  | _ => none

end Role

/-- A declared tensor. -/
structure Symbol where
  name : String
  shape : Shape
  role : Role
deriving DecidableEq, Repr, Inhabited

/-- The role, the name and the shape of a symbol. -/
def Symbol.render (s : Symbol) : String := s!"{s.role.name} {s.name} {s.shape.render}"

/-- The declared tensors by name, in the order of their declarations. -/
structure SymbolTable where
  table : OrderedMap String Symbol := {}
deriving DecidableEq, Repr, Inhabited

namespace SymbolTable

/-- Declares a symbol, in place of an earlier one of the same name. -/
def declare (t : SymbolTable) (s : Symbol) : SymbolTable := ⟨t.table.insert s.name s⟩

def find? (t : SymbolTable) (name : String) : Option Symbol := t.table.get? name

def remove (t : SymbolTable) (name : String) : SymbolTable := ⟨t.table.erase name⟩

/-- All symbols in the order of their declarations. -/
def all (t : SymbolTable) : List Symbol := t.table.values

def size (t : SymbolTable) : Nat := t.table.size

/-- The table that declares the given symbols in order. -/
def ofList (symbols : List Symbol) : SymbolTable := symbols.foldl declare {}

/-- The arguments of the kernel: the inputs, then the outputs that are not inputs. -/
def formals (t : SymbolTable) : List Symbol :=
  t.all.filter (·.role.isInput) ++ t.all.filter fun s => s.role.isOutput && !s.role.isInput

/-- The tensors that the kernel allocates itself. -/
def buffers (t : SymbolTable) : List Symbol := t.all.filter (!·.role.isFormal)

/-- One line per symbol. -/
def render (t : SymbolTable) : List String := t.all.map Symbol.render

end SymbolTable

end LoopNest
