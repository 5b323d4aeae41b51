import LoopNest.Compiler.Invocation
import LoopNest.Compiler.Library.Names
import LoopNest.Compiler.Unit
import LoopNest.Compiler.Usage

/-!
# Shared libraries

A source is made into a library with the names that can be found in it. A library is loaded if the
names that its code uses, and that it does not have itself, are found in the process.
-/

namespace LoopNest.Compiler

/-- How a library is made of a source. -/
structure LinkOptions where
  /-- Names are hidden unless a declaration lets them be seen. -/
  isHidden : Bool := false
  /-- Code that has no effect is left out. -/
  isOptimized : Bool := true
  /-- The functions of mathematics whose calls are replaced by other code. -/
  replaced : List String := []
  hasMathematics : Bool := false
  /-- All names have to be found when the library is made. -/
  isClosed : Bool := false
deriving Inhabited

structure SharedLibrary where
  symbols : Array Symbol
  records : Records
  /-- The symbols that stand for what symbols mean, as far as the library has them. -/
  homes : Array (Option Nat)
  /-- The names that can be found, with their symbols. -/
  exports : List (String × Nat)
  /-- The names that have to be found when the library is loaded. -/
  needed : List String
  hasMathematics : Bool
deriving Inhabited

namespace Symbol

/-- Whether there is an object or a function behind a symbol. -/
def isPresent (s : Symbol) : Bool := s.isDefined || s.isTentative

/-- Whether a symbol is in the library even if nothing uses it. -/
def isRoot (s : Symbol) : Bool :=
  s.isPresent && ((!s.isStatic && s.isShown) || s.isConstructor || s.isKept)

/-- Whether the code of a function is only put in the place of calls. -/
def isInlineOnly (s : Symbol) : Bool := s.isDefined && s.type.isFunction && !s.isStatic && !s.isShown

/-- The objects and functions whose addresses are in the value of an object. -/
def addresses (s : Symbol) : List Nat :=
  s.data.filterMap fun
    | (_, _, .address id _) => some id
    | _ => none

/-- The value of an object at its start, if it is a number. -/
def initial? (s : Symbol) (access : Access) : Option Constant :=
  if s.type.isArray || s.type.isRecord then none
  else match s.data.find? (·.1 = 0), access with
    | some (_, a, c), access => if a = access then some c else none
    | none, .whole (.integer _) => some (.integer 0)
    | none, .whole (.fraction _) => some (.fraction 0)
    | none, _ => none

end Symbol

namespace SharedLibrary

/-- Functions of mathematics whose calls are left out if their values are not used. -/
def droppable : List String :=
  ["sin", "cos", "tan", "atan", "cbrt", "floor", "ceil", "round", "trunc", "rint", "nearbyint",
    "fmax", "fmin", "erf", "asinh", "tanh", "fabs", "copysign"]

/-- What is known of the code of a source. Objects that are only read have one value. -/
def knowledge (options : LinkOptions) (symbols : Array Symbol) (isFixed : Nat → Bool)
    (slots : List (Nat × Constant)) : Knowledge :=
  let name (id : Nat) : Option String :=
    symbols[id]?.bind fun s => if s.isPresent then none else some s.name
  let among (names : List String) (id : Nat) : Bool :=
    (name id).any fun w => names.contains (Mathematics.plainName w).1
  { known :=
      { object := fun id offset access =>
          if offset = 0 && isFixed id then symbols[id]?.bind (·.initial? access) else none
        slot := fun offset => slots.lookup offset
        functionName := name }
    isReplaced := among options.replaced
    isDropped := fun id => options.isOptimized && among droppable id
    isEnding := fun id => (name id).any Library.ending.contains
    isPower := among ["pow"] }

/-- Whether a symbol is an object that may not be changed. -/
def isConstant (s : Symbol) : Bool :=
  s.isPresent && s.quals.isConst && !s.quals.isVolatile && !s.type.isFunction

/-- The objects that are only read, out of the uses of all code. -/
def fixedObjects (symbols : Array Symbol) (uses : Array Use) : Nat → Bool :=
  let changed : Std.HashSet Nat := uses.foldl (fun set u => match u with
    | .symbol id false => set.insert id
    | _ => set) {}
  let changed := symbols.foldl (fun set s => set.insertMany s.addresses) changed
  fun id => symbols[id]?.any fun s =>
    isConstant s || (s.isPresent && !s.quals.isVolatile && !s.type.isFunction && s.isStatic
      && !changed.contains id)

def usesOf (options : LinkOptions) (symbols : Array Symbol) : Array (List Nat) :=
  let hasNested := symbols.any fun s => s.code.any (0 < ·.around)
  let usesWith (k : FunctionCode → Knowledge) (s : Symbol) : Array Use :=
    match s.code with
    | some c => (c.body.uses (k c) #[]).1
    | none => #[]
  let plain (_ : FunctionCode) : Knowledge :=
    knowledge options symbols (fun id => options.isOptimized && symbols[id]?.any isConstant) []
  let first := symbols.map (usesWith plain)
  let isFixed := fixedObjects symbols (first.foldl (· ++ ·) #[])
  let better (c : FunctionCode) : Knowledge :=
    let slots := if hasNested then [] else Use.slots c.scalars (c.body.uses (plain c) #[]).1
    knowledge options symbols isFixed slots
  let found := if options.isOptimized then symbols.map (usesWith better) else first
  (symbols.zip found).map fun (s, uses) =>
    s.addresses ++ uses.toList.filterMap fun
      | .symbol id _ => some id
      | _ => none

/-- The symbols that can be reached from some of them. The fuel bounds their number. -/
def reach (next : Nat → List Nat) (fuel : Nat) (seen : Std.HashSet Nat) (todo : List Nat) :
    Std.HashSet Nat :=
  match fuel, todo with
  | 0, _ | _, [] => seen
  | fuel + 1, id :: todo =>
    if seen.contains id then reach next fuel seen todo
    else reach next fuel (seen.insert id) (next id ++ todo)

def isAvailable (hasMathematics : Bool) (name : String) : Bool :=
  Library.standardNames.contains name || name.startsWith Builtin.opening
    || (hasMathematics && Library.mathematicsNames.contains name)

/-- The library that is made of a source. There is none if a hidden name is missing, or if any name
is and all have to be there. -/
def ofPoint? (options : LinkOptions) (p : Point) : Option SharedLibrary :=
  let symbols := p.symbols
  let isPresent (s : Symbol) : Bool := s.isPresent && (options.isOptimized || !s.isInlineOnly)
  let names : Std.HashMap String Nat := symbols.zipIdx.foldl (fun map (s, id) =>
    if isPresent s && s.target.isNone && !s.name.isEmpty then map.insert s.name id else map) {}
  let homes := symbols.zipIdx.map fun (s, id) =>
    match s.target with
    | some w => names.get? w
    | none => if isPresent s then some id else names.get? s.name
  let uses := usesOf options symbols
  let next (id : Nat) : List Nat :=
    match homes[id]? with
    | some (some home) => if home = id then uses.getD id [] else [home]
    | _ => []
  let isRoot (s : Symbol) : Bool := s.isRoot || p.weak.contains s.name && s.isPresent
  let roots := symbols.zipIdx.toList.filterMap fun (s, id) => if isRoot s then some id else none
  let total := uses.foldl (fun n ids => n + ids.length) (2 * symbols.size + 1)
  let reached := reach next total {} roots
  let missing := symbols.zipIdx.toList.filter fun (s, id) =>
    reached.contains id && (homes[id]?.join).isNone && !s.isWeak && !p.weak.contains s.name
  let isHidden (s : Symbol) : Bool := s.isHidden.getD options.isHidden
  let needed := (missing.map (·.1.name)).eraseDups
  let isRefused := missing.any fun (s, _) => s.isHidden = some true
  let isOpen := options.isClosed && !needed.all (isAvailable options.hasMathematics)
  if isRefused || isOpen then none
  else some
    { symbols, records := p.records, homes, needed, hasMathematics := options.hasMathematics
      exports := symbols.zipIdx.toList.filterMap fun (s, id) =>
        if s.isPresent && s.isShown && !s.isStatic && !isHidden s then some (s.name, id) else none }

/-- Whether the loader finds all names that are needed. -/
def isLoadable (l : SharedLibrary) : Bool := l.needed.all (isAvailable l.hasMathematics)

end SharedLibrary

end LoopNest.Compiler
