import LoopNest.Compiler.Operand

/-!
# Parts of C declarations

What the words of a declaration say, what the marks around a declared name say, and the readers of
the parts of a source that can stand inside of each other.
-/

namespace LoopNest.Compiler

/-- What attributes say about a declared name or a type. -/
structure Attributes where
  isHidden : Option Bool := none
  isWeak : Bool := false
  isConstructor : Bool := false
  isKept : Bool := false
  /-- Nothing has to use it. -/
  isIdle : Bool := false
  isPacked : Bool := false
  isTransparent : Bool := false
  isOldInline : Bool := false
  target : Option String := none
  align : Nat := 0
  /-- The function that is called when an object goes out of scope. -/
  cleanup : Option String := none
deriving Inhabited

namespace Attributes

/-- All that two lists of attributes say. -/
def union (a b : Attributes) : Attributes where
  isHidden := b.isHidden.orElse fun _ => a.isHidden
  isWeak := a.isWeak || b.isWeak
  isConstructor := a.isConstructor || b.isConstructor
  isKept := a.isKept || b.isKept
  isIdle := a.isIdle || b.isIdle
  isPacked := a.isPacked || b.isPacked
  isTransparent := a.isTransparent || b.isTransparent
  isOldInline := a.isOldInline || b.isOldInline
  target := b.target.orElse fun _ => a.target
  align := max a.align b.align
  cleanup := b.cleanup.orElse fun _ => a.cleanup

end Attributes

/-- The words that say where something is kept. -/
inductive Storage where
  | typedef
  | external
  | static
  | auto
  | register
deriving DecidableEq, Repr, Inhabited

/-- What the words of a declaration say. -/
structure Specifiers where
  storage : Option Storage := none
  isInline : Bool := false
  isThread : Bool := false
  quals : Quals := {}
  type : CType := .int
  attributes : Attributes := {}
  /-- The type is that of the value that follows. -/
  isDeduced : Bool := false
  /-- No word names a type. -/
  isTypeless : Bool := false
deriving Inhabited

structure Param where
  name : Option String := none
  quals : Quals := {}
  type : CType := .int
  isRegister : Bool := false
  /-- Nothing has to use it. -/
  isIdle : Bool := false
deriving Inhabited

/-- The parameters of a function. An open list names no types, but may have names. -/
structure Params where
  list : List Param := []
  isVariadic : Bool := false
  isOpen : Bool := false
  names : List String := []
deriving Inhabited

/-- A step from a declared name to its type. -/
inductive Step where
  | pointer (quals : Quals)
  /-- The words of a parameter may stand beside the number of elements. -/
  | array (extent : Extent) (words : Option Quals)
  | function (params : Params)
deriving Inhabited

/-- A declared name, which is none in a type by itself, and the steps from it to its type. -/
structure Declared where
  name : Option String := none
  steps : List Step := []
  attributes : Attributes := {}
  /-- The name in the library. -/
  label : Option String := none
  /-- The tokens from the parameters on, if the first step is a function. -/
  rest : List Token := []
deriving Inhabited

namespace Reading

/-- The type that a step makes. Functions do not give arrays or functions, and arrays hold objects
of complete types and say nothing about a parameter. -/
def applyStep (quals : Quals) (t : CType) : Step → Reading (Quals × CType)
  | .pointer q => return (q, .pointer quals t)
  | .array n words => do
    require (words.isNone && (← isComplete t))
    let rs ← records
    if let .known n := n then require (n * t.sizeOf rs < Nat.pow 2 63)
    return ({}, .array quals t n)
  | .function ps => do
    require !(t.isArray || t.isFunction)
    return ({}, .function t ps.isOpen (ps.list.map (·.type)) ps.isVariadic)

def typeOf (sp : Specifiers) (steps : List Step) : Reading (Quals × CType) := do
  require (!sp.quals.isRestrict || sp.type.isPointer)
  steps.reverse.foldlM (fun (q, t) step => applyStep q t step) (sp.quals, sp.type)

/-- What a statement stands in. -/
structure Around where
  inLoop : Bool := false
  inSwitch : Bool := false
deriving Inhabited

end Reading

/-- A part of an object with the value that it starts with. -/
structure Part where
  offset : Nat
  type : CType
  bits : Option (Integer × Nat × Nat) := none
  value : Operand
deriving Inhabited

/-- The readers of the parts of a source that can stand inside of each other. -/
structure Readers where
  expression : Reading Operand
  assignment : Reading Operand
  conditional : Reading Operand
  unary : Reading Operand
  specifiers : Reading Specifiers
  declarator : Reading Declared
  /-- The values of an object of a type up to the closing brace: its parts, and its type with the
  number of elements. -/
  values : CType → Reading (List Part × CType)
  /-- The statements of a block up to its closing brace. -/
  block : Reading.Around → Reading (List Stmt)
  statement : Reading.Around → Reading Stmt
  declaration : Reading (List Stmt)

end LoopNest.Compiler
