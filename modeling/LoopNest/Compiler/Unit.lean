import LoopNest.Compiler.Directive
import LoopNest.Compiler.Statement

/-!
# Whole C sources

Reads a C source: the declarations and functions that it is made of. The parts of a source can stand
inside of each other as deep as there are tokens.
-/

namespace LoopNest.Compiler

/-- The readers of parts that stand inside of each other at most as deep as given. -/
def readers : Nat → Readers
  | 0 =>
    { expression := Reading.refuse, assignment := Reading.refuse, conditional := Reading.refuse
      unary := Reading.refuse, specifiers := Reading.refuse, declarator := Reading.refuse
      values := fun _ => Reading.refuse, block := fun _ => Reading.refuse
      statement := fun _ => Reading.refuse, declaration := Reading.refuse }
  | n + 1 =>
    { expression := fun p => Reading.expression (readers n) p
      assignment := fun p => Reading.assignment (readers n) p
      conditional := fun p => Reading.conditional (readers n) p
      unary := fun p => Reading.unary (readers n) p
      specifiers := fun p => Reading.specifiers (readers n) p
      declarator := fun p => Reading.declarator (readers n) p
      values := fun t p => Reading.values (readers n) t p
      block := fun around p => Reading.block (readers n) around p
      statement := fun around p => Reading.statement (readers n) around p
      declaration := fun p => Reading.declaration (readers n) p }

namespace Reading

/-- Reads a function, after its name and parameters. -/
def functionDefinition (r : Readers) (sp : Specifiers) (d : Declared) (t : CType) : Reading Unit := do
  let w ← demand d.name
  require (sp.storage.all fun s => s = .static || s = .external)
  require (match d.steps.head? with
    | some (.function _) => true
    | _ => false)
  let isNew := ((← get).outer.get? w).isNone
  let isOpen := match d.steps.head? with
    | some (.function params) => params.isOpen
    | _ => false
  if isNew && sp.storage ≠ some .static && w ≠ "main" then
    warn "missing-prototypes"
    warn "missing-declarations"
  if isOpen then
    warn "strict-prototypes"
    warn "old-style-definition"
  else warn "traditional"
  let target ← declareTop sp d w {} t
  match target with
  | .symbol id =>
    let s ← symbol id
    require (!s.isDefined && d.label.isNone)
    let p ← get
    let isRenamed := p.dialect.isPlus && !p.keepsNames && w ≠ "main"
    setSymbol id fun s => { s with isDefined := true, name := if isRenamed then "_Z" ++ s.name else s.name }
    functionBody r id d t
  | _ => refuse

/-- The type of a function that is defined without a word for what it gives, which is nothing if a
declaration says so. -/
def defaulted (sp : Specifiers) (d : Declared) (t : CType) : Reading CType := do
  match t, d.name.bind (← get).outer.get? with
  | .function result params isOpen isVariadic, some id =>
    match (← symbol id).type with
    | .function .void .. =>
      return .function (if sp.isTypeless then .void else result) params isOpen isVariadic
    | _ => return t
  | _, _ => return t

/-- Reads a declaration or a function outside of blocks. -/
def outer (r : Readers) : Reading Unit := do
  if ← accept ";" then
    warn "pedantic"
    return ()
  let _ ← acceptWord "__extension__"
  if ← acceptWord "_Static_assert" then assertion r
  else if ← acceptWords ["__asm__", "__asm"] then
    let _ ← machineCode
  else
    let sp ← r.specifiers
    if ← accept ";" then
      require (!sp.isInline && sp.storage.all fun s => s ≠ .register && s ≠ .auto)
      return ()
    let d ← trailing r (← r.declarator)
    let (quals, t) ← if sp.isDeduced then pure (sp.quals, sp.type) else typeOf sp d.steps
    let startsBody ← do
      if ← isNext "\x7b" then pure true
      else match d.steps.head? with
        | some (.function params) => pure (!params.names.isEmpty && (← atType))
        | _ => pure false
    if t.isFunction && startsBody then functionDefinition r sp d (← defaulted sp d t)
    else
      require !sp.isDeduced
      let ss ← declaredValue r sp d quals t
      let _ ← declaredRest r sp ss

/-- Reads declarations and functions, between braces if those of another language are meant. -/
def outerOrBraced (r : Readers) : Reading Unit := do
  let p ← get
  match p.tokens with
  | .word "extern" :: .text _ s :: rest =>
    require (p.dialect.isPlus && (s = "C" || s = "C++"))
    modify fun p => { p with tokens := rest, keepsNames := s = "C" }
    if ← accept "\x7b" then
      let _ ← many do
        if ← accept "\x7d" then return none
        outer r
        return some ()
    else outer r
    modify fun q => { q with keepsNames := p.keepsNames }
  | _ => outer r

/-- Reads everything up to the end. -/
def unit (r : Readers) : Reading Unit := do
  if (← peek).isNone then warn "pedantic"
  let _ ← many do
    if (← peek).isNone then return none
    outerOrBraced r
    return some ()

end Reading

/-- The structure behind the arguments beyond those that a function declares. -/
def argumentRecord : Record where
  isUnion := false
  members := some
    [{ name := some "gp_offset", type := .integer .unsignedInt, offset := 0 },
      { name := some "fp_offset", type := .integer .unsignedInt, offset := 4 },
      { name := some "overflow_arg_area", type := .pointerTo .void, offset := 8 },
      { name := some "reg_save_area", type := .pointerTo .void, offset := 16 }]
  size := 24
  align := 8

/-- Whether every object that a source makes has a size, and every other name stands for
something. -/
def Point.isWhole (p : Point) : Bool :=
  p.symbols.all fun s =>
    let isSized := s.type.isFunction || !s.isTentative || s.isDefined || s.type.isOpenArray
      || s.type.isComplete p.records
    let isBound := match s.target with
      | none => true
      | some w => p.symbols.any fun t => t.name = w && (t.isDefined || t.isTentative)
    isSized && (isBound || s.isWeak)

/-- What the compiler warns of after a source has been read: functions and objects that nothing can
use, and that nothing does use. -/
def Point.lateWarnings (p : Point) : List String :=
  let idle := p.symbols.filter fun s => s.isStatic && !s.isUsed && !s.name.isEmpty
  (if idle.any (·.type.isFunction) then ["unused-function"] else [])
    ++ if idle.any fun s => !s.type.isFunction then ["unused-variable"] else []

/-- Reads a source. There is no result if the compiler reports an error. -/
def compile? (dialect : Dialect) (source : String) : Option Point := do
  let lexed ← Lexed.ofSource? dialect source
  let start : Point := { tokens := [], dialect, records := #[argumentRecord] }
  let start := start.settled (lexed.tokens.map (·.token))
  let (_, p) ← Reading.unit (readers (8 * lexed.tokens.length + 64)) start
  if p.isWhole then some { p with warnings := p.lateWarnings ++ p.warnings } else none

end LoopNest.Compiler
