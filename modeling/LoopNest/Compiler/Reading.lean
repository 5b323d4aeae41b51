import LoopNest.Compiler.Dialect
import LoopNest.Compiler.Folding
import LoopNest.Compiler.Token
import Std.Data.HashMap

/-!
# Reading of C sources

What is known at a point of a source: the tokens that follow, the meanings of names in the blocks
around the point, and the objects and functions found so far. A source is refused where the compiler
reports an error; what it only warns of is kept.
-/

namespace LoopNest.Compiler

/-- An object that is always there, or a function. -/
structure Symbol where
  name : String
  type : CType
  quals : Quals := {}
  isStatic : Bool := false
  isDefined : Bool := false
  /-- There is a declaration that makes an object without a value. -/
  isTentative : Bool := false
  /-- A declaration lets it be used from outside. -/
  isShown : Bool := false
  /-- Whether a declaration hides it or lets it be seen. -/
  isHidden : Option Bool := none
  isWeak : Bool := false
  /-- The only declaration is a call. -/
  isImplicit : Bool := false
  isConstructor : Bool := false
  /-- The source uses it, or does not have to. -/
  isUsed : Bool := false
  /-- It stays in the library even if nothing uses it. -/
  isKept : Bool := false
  /-- The name of what it is another name of. -/
  target : Option String := none
  align : Nat := 1
  /-- The bytes beyond those of its type. -/
  extra : Nat := 0
  code : Option FunctionCode := none
  /-- What an object holds at the start: the places of values that are not zero. -/
  data : List (Nat × Access × Constant) := []
deriving Inhabited

inductive Meaning where
  | type (quals : Quals) (t : CType)
  | constant (v : Int) (t : CType)
  | symbol (id : Nat)
  | place (depth offset : Nat) (quals : Quals) (t : CType) (isRegister : Bool)
  /-- An object whose address is kept at a place in the frame of a function. -/
  | distant (depth offset : Nat) (quals : Quals) (t : CType)
deriving Inhabited

/-- The meanings of names and of tags in a block. -/
structure Scope where
  names : Std.HashMap String Meaning := {}
  tags : Std.HashMap String CType := {}
deriving Inhabited

/-- The function that is being read. -/
structure Frame where
  name : String
  result : CType
  isVariadic : Bool := false
  size : Nat := 0
  /-- The places of variables that are numbers or pointers. -/
  scalars : List Nat := []
  /-- The places of all variables, and those that are used or do not have to be. -/
  named : List Nat := []
  used : Std.HashSet Nat := {}
  /-- The labels by name, and those that have been reached. -/
  labels : List (String × Nat) := []
  reached : List Nat := []
  /-- The ranges of the selections around the point, with the labels for everything else. -/
  selections : List (List (Int × Int × Nat) × Option Nat) := []
  /-- The string with the name of the function. -/
  title : Option Nat := none
  /-- What has to be computed for the types that have been read, last one first. -/
  effects : List Node := []
deriving Inhabited

/-- What is known at a point of a source. -/
structure Point where
  tokens : List Token
  dialect : Dialect := {}
  scopes : List Scope := [{}]
  records : Records := #[]
  enumerations : Nat := 0
  symbols : Array Symbol := #[]
  /-- The symbols that are not inside of functions, by the names of the source. -/
  outer : Std.HashMap String Nat := {}
  /-- The strings, by the sizes and values of their elements. -/
  texts : Std.HashMap (Nat × List Nat) Nat := {}
  /-- The function that is being read, and those around it. -/
  frames : List Frame := []
  labels : Nat := 0
  /-- Functions keep their names in the library, also in the language that changes them. -/
  keepsNames : Bool := false
  /-- The number of lists of parameters around the point that belong to no function. -/
  prototypes : Nat := 0
  /-- Whether names are hidden, by the pragmas that are in effect. -/
  visibility : List Bool := []
  /-- The most that addresses of members are multiples of, by the pragmas that are in effect. -/
  packing : List Nat := []
  weak : List String := []
  warnings : List String := []
  /-- The value of the statement that was read last, if it is an expression. -/
  last : Option (Node × CType) := none
deriving Inhabited

namespace Point

/-- Lets a pragma take effect. -/
def obey (p : Point) : List String → Point
  | "GCC" :: "visibility" :: "push" :: "(" :: v :: _ =>
    { p with visibility := (v == "hidden" || v == "internal") :: p.visibility }
  | "GCC" :: "visibility" :: "pop" :: _ => { p with visibility := p.visibility.tail }
  | ["pack", "(", "push", ",", n, ")"] => { p with packing := n.toNat?.getD 0 :: p.packing }
  | ["pack", "(", "push", ")"] => { p with packing := p.packing.headD 0 :: p.packing }
  | ["pack", "(", "pop", ")"] => { p with packing := p.packing.tail }
  | ["pack", "(", ")"] => { p with packing := 0 :: p.packing.tail }
  | ["pack", "(", n, ")"] => { p with packing := n.toNat?.getD 0 :: p.packing.tail }
  | "weak" :: w :: _ => { p with weak := w :: p.weak }
  | _ => p

/-- Passes over the pragmas in front of some tokens and lets them take effect. -/
def settled (p : Point) : List Token → Point
  | .pragma words :: ts => (p.obey words).settled ts
  | ts => { p with tokens := ts }

/-- The depth of nesting of the function that is being read. -/
def depth (p : Point) : Nat := p.frames.length

def cell (p : Point) (t : CType) : Cell := t.cell p.records

end Point

/-- Reading of a part of a source, which may be refused. -/
abbrev Reading := StateT Point Option

/-- The words that are no names in any version of the language. -/
def keywords : List String :=
  ["auto", "break", "case", "char", "const", "continue", "default", "do", "double", "else", "enum",
    "extern", "float", "for", "goto", "if", "int", "long", "register", "return", "short", "signed",
    "sizeof", "static", "struct", "switch", "typedef", "union", "unsigned", "void", "volatile",
    "while", "_Alignas", "_Alignof", "_Atomic", "_Bool", "_Complex", "_Decimal128", "_Decimal32",
    "_Decimal64", "_Float128", "_Float16", "_Float32", "_Float32x", "_Float64", "_Float64x",
    "_Generic", "_Imaginary", "_Noreturn", "_Static_assert", "_Thread_local", "__FUNCTION__",
    "__PRETTY_FUNCTION__", "__alignof", "__alignof__", "__asm", "__asm__", "__attribute",
    "__attribute__", "__auto_type", "__builtin_choose_expr", "__builtin_complex",
    "__builtin_offsetof", "__builtin_types_compatible_p", "__builtin_va_arg", "__complex",
    "__complex__", "__const", "__const__", "__extension__", "__float128", "__func__", "__imag",
    "__imag__", "__inline", "__inline__", "__int128", "__label__", "__real", "__real__",
    "__restrict", "__restrict__", "__signed", "__signed__", "__thread", "__typeof", "__typeof__",
    "__volatile", "__volatile__"]

def attributeWords : List String := ["__attribute", "__attribute__"]

namespace Reading

def refuse : Reading α := fun _ => none

/-- Refuses the source unless a condition holds. -/
def require (b : Bool) : Reading Unit := if b then return () else refuse

/-- The value, which has to be there. -/
def demand : Option α → Reading α
  | some a => return a
  | none => refuse

/-- Notes that the compiler warns of something. -/
def warn (about : String) : Reading Unit := modify fun p =>
  if p.warnings.contains about then p else { p with warnings := about :: p.warnings }

def peek : Reading (Option Token) := fun p => some (p.tokens.head?, p)

def peekSecond : Reading (Option Token) := fun p => some (p.tokens.tail.head?, p)

def skip : Reading Unit := modify fun p =>
  match p.tokens with
  | _ :: .pragma words :: ts => p.settled (.pragma words :: ts)
  | _ :: ts => { p with tokens := ts }
  | [] => p

/-- Passes over a mark if it is next, and tells whether it was. -/
def accept (m : String) : Reading Bool := do
  match ← peek with
  | some (.mark n) =>
    if m = n then
      skip
      return true
    else return false
  | _ => return false

/-- Passes over a mark, which has to be next. -/
def expect (m : String) : Reading Unit := do
  if !(← accept m) then refuse

/-- Passes over a keyword if it is next, and tells whether it was. -/
def acceptWord (w : String) : Reading Bool := do
  match ← peek with
  | some (.word v) =>
    if v = w then
      skip
      return true
    else return false
  | _ => return false

/-- Passes over one of some keywords if it is next, and tells whether it was. -/
def acceptWords (ws : List String) : Reading Bool := do
  match ← peek with
  | some (.word v) =>
    if ws.contains v then
      skip
      return true
    else return false
  | _ => return false

def isNext (m : String) : Reading Bool := return (← peek) = some (.mark m)

def isKeyword (w : String) : Reading Bool := do
  return keywords.contains w || (← get).dialect.words.contains w

/-- The next token, which has to be a name. -/
def name : Reading String := do
  match ← peek with
  | some (.word w) =>
    require !(← isKeyword w)
    skip
    return w
  | _ => refuse

def meaning? (w : String) : Reading (Option Meaning) := fun p =>
  some (p.scopes.findSome? (·.names.get? w), p)

/-- What a name means in the innermost block. -/
def innermost? (w : String) : Reading (Option Meaning) := fun p =>
  some (p.scopes.head?.bind (·.names.get? w), p)

def openBlock : Reading Unit := modify fun p => { p with scopes := {} :: p.scopes }

def closeBlock : Reading Unit := modify fun p => { p with scopes := p.scopes.tail }

/-- Gives a name a meaning in the innermost block. -/
def define (w : String) (m : Meaning) : Reading Unit := modify fun p =>
  match p.scopes with
  | [] => p
  | scope :: outer => { p with scopes := { scope with names := scope.names.insert w m } :: outer }

/-- Gives a tag a meaning in the innermost block. -/
def defineTag (w : String) (t : CType) : Reading Unit := modify fun p =>
  match p.scopes with
  | [] => p
  | scope :: outer => { p with scopes := { scope with tags := scope.tags.insert w t } :: outer }

/-- Whether no function is being read. -/
def isOutside : Reading Bool := return (← get).frames.isEmpty

def records : Reading Records := return (← get).records

def cellOf (t : CType) : Reading Cell := return (← get).cell t

def isComplete (t : CType) : Reading Bool := return t.isComplete (← records)

def symbol (id : Nat) : Reading Symbol := do demand (← get).symbols[id]?

def setSymbol (id : Nat) (f : Symbol → Symbol) : Reading Unit :=
  modify fun p => { p with symbols := p.symbols.modify id f }

def addSymbol (s : Symbol) : Reading Nat :=
  modifyGet fun p => (p.symbols.size, { p with symbols := p.symbols.push s })

def freshLabel : Reading Nat := modifyGet fun p => (p.labels, { p with labels := p.labels + 1 })

/-- Changes the function that is being read. -/
def setFrame (f : Frame → Frame) : Reading Unit := modify fun p =>
  match p.frames with
  | [] => p
  | frame :: outer => { p with frames := f frame :: outer }

/-- Notes that a variable of a function at a depth of nesting is used. -/
def markPlace (depth offset : Nat) : Reading Unit := modify fun p =>
  { p with frames := p.frames.modify (p.frames.length - depth) fun f =>
      { f with used := f.used.insert offset } }

/-- A new place in the frame of the function that is being read. -/
def allot (size align : Nat) : Reading Nat := do
  match (← get).frames with
  | [] => refuse
  | frame :: _ =>
    let offset := roundUp frame.size align
    setFrame fun f => { f with size := offset + size }
    return offset

/-- Passes over tokens up to the bracket that closes as many as are open, and gives the tokens
inside. -/
def brackets (depth : Nat) (done : List Token) : List Token → Option (List Token × List Token)
  | [] => none
  | t :: ts =>
    match t with
    | .mark "(" => brackets (depth + 1) (t :: done) ts
    | .mark ")" => if depth ≤ 1 then some (done.reverse, ts) else brackets (depth - 1) (t :: done) ts
    | _ => brackets depth (t :: done) ts

/-- Passes over something in brackets and gives its tokens. -/
def bracketed : Reading (List Token) := do
  expect "("
  let (inside, rest) ← demand (brackets 1 [] (← get).tokens)
  modify fun p => p.settled rest
  return inside

/-- The most parts of one kind that may follow each other. -/
def limit : Nat := 10000000

/-- Repeats a step as long as it gives something. The fuel bounds the number of steps. -/
def collect (fuel : Nat) (done : List α) (step : Reading (Option α)) : Reading (List α) :=
  match fuel with
  | 0 => refuse
  | fuel + 1 => do
    match ← step with
    | some a => collect fuel (a :: done) step
    | none => return done.reverse

/-- Repeats a step as long as it gives something. -/
def many (step : Reading (Option α)) : Reading (List α) := collect limit [] step

/-- Changes a value step by step as long as a step gives one. The fuel bounds the number of
steps. -/
def refine (fuel : Nat) (a : α) (step : α → Reading (Option α)) : Reading α :=
  match fuel with
  | 0 => refuse
  | fuel + 1 => do
    match ← step a with
    | some b => refine fuel b step
    | none => return a

/-- Changes a value step by step as long as a step gives one. -/
def improve (a : α) (step : α → Reading (Option α)) : Reading α := refine limit a step

end Reading

end LoopNest.Compiler
