import LoopNest.Compiler.Expression

/-!
# Statements and declarations of C

Reads declarations with the values of their objects, the statements of functions, and whole
functions.
-/

namespace LoopNest.Compiler

namespace Reading

/-- Notes that the statement that was read last gives no value. -/
def noValue : Reading Unit := modify fun p => { p with last := none }

def test (r : Readers) : Reading Node := do
  expect "("
  let n ← truth (← r.expression)
  expect ")"
  return n

/-- Reads an expression, if there is one, and the mark after it. -/
def optional (r : Readers) (closing : String) : Reading (Option Operand) := do
  if ← accept closing then return none
  let o ← r.expression
  let o ← rvalue o
  expect closing
  return some o

def expressionStatement (r : Readers) : Reading Stmt := do
  match ← optional r ";" with
  | none =>
    noValue
    return .block []
  | some o =>
    modify fun p => { p with last := some (o.node, o.type) }
    return .expression o.node

def afterLabel (r : Readers) (around : Around) : Reading Stmt := do
  let _ ← attributes r
  noValue
  if ← isNext "\x7d" then return .block []
  else if (← atType) && (← peekSecond) ≠ some (.mark ":") then return .block (← r.declaration)
  else r.statement around

/-- Adds a range to the selection around the point. Ranges may not meet. -/
def addRange (low high : Int) : Reading Nat := do
  let f ← demand (← get).frames.head?
  let (ranges, _) ← demand f.selections.head?
  require (ranges.all fun (a, b, _) => high < a || b < low)
  let id ← freshLabel
  setFrame fun f => match f.selections with
    | (ranges, other) :: outer => { f with selections := ((low, high, id) :: ranges, other) :: outer }
    | [] => f
  return id

/-- Reads a label of a selection, after its word. -/
def caseLabel (r : Readers) (around : Around) : Reading Stmt := do
  require around.inSwitch
  let low ← integerConstant (← r.conditional)
  let high ← if ← accept "..." then integerConstant (← r.conditional) else pure low
  expect ":"
  let id ← addRange low high
  return .block [.mark id, ← afterLabel r around]

/-- Reads the label of a selection for everything else, after its word. -/
def defaultLabel (r : Readers) (around : Around) : Reading Stmt := do
  require around.inSwitch
  expect ":"
  let f ← demand (← get).frames.head?
  let (_, other) ← demand f.selections.head?
  require other.isNone
  let id ← freshLabel
  setFrame fun f => match f.selections with
    | (ranges, _) :: outer => { f with selections := (ranges, some id) :: outer }
    | [] => f
  return .block [.mark id, ← afterLabel r around]

/-- Reads a selection, after its word. -/
def selection (r : Readers) (around : Around) : Reading Stmt := do
  expect "("
  let o ← rvalue (← r.expression)
  expect ")"
  let k := (← demand o.type.integer?).promoted
  let value ← convertNode (.integer k) o
  setFrame fun f => { f with selections := ([], none) :: f.selections }
  let body ← r.statement { around with inSwitch := true }
  let f ← demand (← get).frames.head?
  let (ranges, other) ← demand f.selections.head?
  setFrame fun f => { f with selections := f.selections.tail }
  return .select value (ranges.map fun (a, b, id) => (k.wrap a, k.wrap b, id)) other body

/-- Reads a counted loop, after its word. -/
def forLoop (r : Readers) (around : Around) : Reading Stmt := do
  expect "("
  openBlock
  let start ← if ← atType then do
      require (199901 ≤ (← get).dialect.version)
      warn "c90-c99-compat"
      let ss ← r.declaration
      require ((← get).scopes.head?.all fun s => s.names.fold (fun ok _ m => ok && match m with
        | .place .. => true
        | _ => false) true)
      pure ss
    else do
      let o ← optional r ";"
      pure (o.toList.map fun o => .expression o.node)
  let condition ← if ← accept ";" then pure none else do
    let n ← truth (← r.expression)
    expect ";"
    pure (some n)
  let step ← optional r ")"
  let body ← r.statement { around with inLoop := true }
  closeBlock
  return .block (start ++ [.loop false condition (step.map (·.node)) body])

/-- Reads the value that a function gives back, after its word. -/
def resultStatement (r : Readers) : Reading Stmt := do
  let f ← demand (← get).frames.head?
  let isPlus := (← get).dialect.isPlus
  if ← accept ";" then
    if !f.result.isVoid then
      require !isPlus
      warn "return-type"
    return .result none
  let o ← r.expression
  expect ";"
  if f.result.isVoid then
    let o ← rvalue o
    if !o.type.isVoid then
      require !isPlus
      warn "return-type"
    return .block [.expression o.node, .result none]
  else return .result (some (← coerce f.result o))

/-- Reads code of the machine, after its word. -/
def machineCode : Reading Stmt := do
  let _ ← many do
    if ← acceptWords ["volatile", "__volatile__", "__volatile", "inline", "goto"] then return some ()
    else return none
  let inside ← bracketed
  require (match inside.head? with
    | some (.text _ _) => true
    | _ => false)
  expect ";"
  return .block []

def statement (r : Readers) (around : Around) : Reading Stmt := do
  match ← peek with
  | some (.mark "\x7b") =>
    skip
    openBlock
    let ss ← r.block around
    closeBlock
    noValue
    return .block ss
  | some (.word w) =>
    let isLabel := (← peekSecond) = some (.mark ":") && !(← isKeyword w)
    if isLabel then
      skip
      skip
      let id ← labelOf w
      let f ← demand (← get).frames.head?
      require !(f.reached.contains id)
      setFrame fun f => { f with reached := id :: f.reached }
      return .block [.mark id, ← afterLabel r around]
    match w with
    | "if" =>
      skip
      let condition ← test r
      let yes ← r.statement around
      let no ← if ← acceptWord "else" then r.statement around else pure (.block [])
      noValue
      return .branch condition yes no
    | "while" =>
      skip
      let condition ← test r
      let body ← r.statement { around with inLoop := true }
      noValue
      return .loop false (some condition) none body
    | "do" =>
      skip
      let body ← r.statement { around with inLoop := true }
      require (← acceptWord "while")
      let condition ← test r
      expect ";"
      noValue
      return .loop true (some condition) none body
    | "for" =>
      skip
      let s ← forLoop r around
      noValue
      return s
    | "switch" =>
      skip
      let s ← selection r around
      noValue
      return s
    | "case" =>
      skip
      caseLabel r around
    | "default" =>
      skip
      defaultLabel r around
    | "goto" =>
      skip
      noValue
      if ← accept "*" then
        let o ← rvalue (← r.expression)
        require o.type.isScalar
        expect ";"
        return .jumpTo (← convertNode .size o)
      let id ← labelOf (← name)
      expect ";"
      return .jump id
    | "return" =>
      skip
      noValue
      resultStatement r
    | "break" =>
      skip
      require (around.inLoop || around.inSwitch)
      expect ";"
      noValue
      return .leave
    | "continue" =>
      skip
      require around.inLoop
      expect ";"
      noValue
      return .next
    | "__asm__" | "__asm" =>
      skip
      noValue
      machineCode
    | "asm" =>
      if (← get).dialect.isGnu then
        skip
        noValue
        machineCode
      else expressionStatement r
    | _ => expressionStatement r
  | _ => expressionStatement r

/-- Reads the statements and declarations of a block up to its closing brace. -/
def block (r : Readers) (around : Around) : Reading (List Stmt) := do
  let (lists, _, _) ← improve (([] : List (List Stmt)), false, false)
    fun (lists, hasStatement, isEnd) => do
      if isEnd then return none
      if ← accept "\x7d" then return some (lists, hasStatement, true)
      if ← acceptWord "_Static_assert" then
        assertion r
        return some (lists, hasStatement, false)
      if ← acceptWord "__label__" then
        let _ ← name
        let _ ← many do
          if ← accept "," then return some (← name) else return none
        expect ";"
        return some (lists, hasStatement, false)
      let _ ← acceptWord "__extension__"
      if (← atType) && (← peekSecond) ≠ some (.mark ":") then
        if hasStatement then warn "declaration-after-statement"
        let ss ← r.declaration
        noValue
        return some (ss :: lists, hasStatement, false)
      else return some ([← r.statement around] :: lists, true, false)
  return lists.reverse.flatten

/-- Reads the declarations of parameters that are named without types, up to the opening brace. -/
def oldParameters (r : Readers) (names : List String) : Reading (List Param) := do
  let given ← many do
    if ← isNext "\x7b" then return none
    let sp ← r.specifiers
    require (sp.storage.all (· = .register))
    if ← accept ";" then return some []
    let one : Reading Param := do
      let d ← r.declarator
      let (quals, t) ← typeOf sp d.steps
      require (!t.isVoid && d.name.any names.contains)
      return { name := d.name, quals := if t.isArray then {} else quals, type := t.decayed
               isRegister := sp.storage.isSome, isIdle := sp.attributes.isIdle }
    let first ← one
    let rest ← many do
      if ← accept "," then return some (← one) else return none
    expect ";"
    return some (first :: rest)
  let given := given.flatten
  let found := given.filterMap (·.name)
  require (found.eraseDups.length = found.length && names.eraseDups.length = names.length)
  return names.map fun w => (given.find? (·.name = some w)).getD { name := some w }

/-- Reads the body of a function whose parameters are given by the tokens from them on. -/
def functionBody (r : Readers) (id : Nat) (d : Declared) (t : CType) : Reading Unit := do
  let (result, isVariadic) ← match t with
    | .function result _ _ v => pure (result, v)
    | _ => refuse
  require (result.isVoid || (← isComplete result))
  let before ← get
  let frame : Frame := { name := d.name.getD "", result, isVariadic }
  modify fun p => { p with frames := frame :: p.frames, prototypes := 0, tokens := d.rest }
  openBlock
  if isVariadic then
    let _ ← allot 8 8
  let (params, places) ← parameters r
  modify fun p => { p with tokens := before.tokens }
  let (list, places) ← if params.names.isEmpty then pure (params.list, places) else do
    let list ← oldParameters r params.names
    let agrees (t : CType) (p : Param) : Bool := t.agrees p.type || t.agrees p.type.promoted
    match (← symbol id).type with
    | .function _ false types _ =>
      require (types.length = list.length && (types.zip list).all fun (t, p) => agrees t p)
    | _ => pure ()
    pure (list, ← list.mapM (bindParam []))
  let effects ← takeEffects
  expect "\x7b"
  let ss ← r.block {}
  closeBlock
  let f ← demand (← get).frames.head?
  require (f.labels.all fun (_, label) => f.reached.contains label)
  if (list.zip places).any fun (p, place) => p.name.isSome && !p.isIdle && !f.used.contains place then
    warn "unused-parameter"
  if f.named.any (!f.used.contains ·) then warn "unused-variable"
  let cells ← list.mapM fun p => cellOf p.type
  let code : FunctionCode :=
    { params := places.zip cells, result := ← cellOf result, frameSize := f.size, isVariadic
      scalars := f.scalars, around := before.frames.length
      body := .block (effects.map .expression ++ ss) }
  modify fun p => { p with
    frames := p.frames.tail, prototypes := before.prototypes, last := none }
  setSymbol id fun s => { s with code := some code }

def nestedFunction (r : Readers) (sp : Specifiers) (d : Declared) (t : CType) : Reading Unit := do
  let w ← demand d.name
  require (sp.storage.all (· = .auto))
  match ← innermost? w with
  | none => pure ()
  | some _ => refuse
  let id ← addSymbol { name := w ++ ".0", type := t, isStatic := true, isDefined := true }
  define w (.symbol id)
  functionBody r id d t

/-- The type of an array whose number of elements is given by the values that follow. -/
def measured (r : Readers) (w : String) (quals : Quals) (t : CType) : Reading CType := do
  let before ← get
  define w (.place before.depth 0 quals t false)
  expect "="
  let (_, t, _) ← initializer r t
  set before
  return t

/-- Reads the value of a declared object, if there is one. -/
def declaredValue (r : Readers) (sp : Specifiers) (d : Declared) (quals : Quals) (t : CType) :
    Reading (List Stmt) := do
  let hasValue ← isNext "="
  let outside ← isOutside
  if hasValue then
    require (!t.isFunction && sp.storage ≠ some .typedef && (outside || sp.storage ≠ some .external))
  let isFrame := !outside && !t.isFunction && sp.storage.all fun s => s = .auto || s = .register
  let t ← if hasValue && isFrame && t.isOpenArray then measured r (← demand d.name) quals t else pure t
  let sp := if hasValue && outside && sp.storage = some .external then { sp with storage := none } else sp
  let target ← declare sp d quals t
  if hasValue then
    skip
    match target with
    | .nothing => refuse
    | .symbol id =>
      let s ← symbol id
      require !s.isDefined
      let (ps, t, _) ← initializer r s.type
      require (← isComplete t)
      setData id t ps
      return []
    | .place offset =>
      let (ps, t, isZeroed) ← initializer r t
      require (← isComplete t)
      store (.frame 0 offset) t isZeroed ps
    | .distant _ => refuse
  else
    match target with
    | .place _ =>
      require (← isComplete t)
      return []
    | .symbol _ =>
      if !outside then require (← isComplete t)
      return []
    | .distant offset =>
      let size ← sizeNode t
      let address := Node.operation .allocate [] [size]
      return [.expression (.storing (.whole Cell.pointer) (.frame 0 offset) address)]
    | .nothing => return []

/-- Reads a declared name with its value, after the words of the declaration. The flag tells whether
it was a whole function. -/
def declaredName (r : Readers) (sp : Specifiers) : Reading (List Stmt × Bool) := do
  let d ← trailing r (← r.declarator)
  if sp.isDeduced then
    require (d.steps.isEmpty && (← isNext "="))
    let before ← get
    skip
    let o ← rvalue (← r.assignment)
    set before
    let ss ← declaredValue r { sp with isDeduced := false } d sp.quals o.type
    return (ss, false)
  let (quals, t) ← typeOf sp d.steps
  let effects ← takeEffects
  let effects := effects.map Stmt.expression
  if t.isFunction && (← isNext "\x7b") && !(← isOutside) then
    nestedFunction r sp d t
    return (effects, true)
  let ss ← declaredValue r sp d quals t
  return (effects ++ ss, false)

/-- Reads the names of a declaration after the first one. -/
def declaredRest (r : Readers) (sp : Specifiers) (first : List Stmt) : Reading (List Stmt) := do
  let rest ← many do
    if ← accept "," then return some (← declaredName r sp).1 else return none
  expect ";"
  return first ++ rest.flatten

def declaration (r : Readers) : Reading (List Stmt) := do
  let sp ← r.specifiers
  let effects := (← takeEffects).map Stmt.expression
  if ← accept ";" then
    require !sp.isInline
    return effects
  let (first, isWhole) ← declaredName r sp
  if isWhole then return effects ++ first else return effects ++ (← declaredRest r sp first)

end Reading

end LoopNest.Compiler
