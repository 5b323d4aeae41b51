import LoopNest.Compiler.Specifiers

/-!
# Declared names of C

Reads the marks around declared names, and gives the names their meanings. The same thing may be
declared several times outside of functions, but be defined only once.
-/

namespace LoopNest.Compiler

def Symbol.declared (s : Symbol) (sp : Specifiers) (d : Declared) (t : CType)
    (isHidden : Option Bool) : Symbol :=
  let a := sp.attributes.union d.attributes
  let isExtern := sp.storage = some .external
  let isFunction := t.isFunction
  let shows := if isFunction then (if a.isOldInline then !isExtern else isExtern || !sp.isInline) else !isExtern
  { s with
    type := s.type.join t
    name := d.label.getD s.name
    isShown := !s.isStatic && (s.isShown || shows || a.target.isSome)
    isTentative := s.isTentative || (!isFunction && !isExtern)
    isHidden := a.isHidden.orElse fun _ => isHidden.orElse fun _ => s.isHidden
    isWeak := s.isWeak || a.isWeak
    isKept := s.isKept || a.isKept
    isUsed := s.isUsed || a.isKept || a.isIdle || a.target.isSome || (isFunction && sp.isInline)
    isConstructor := s.isConstructor || a.isConstructor
    isImplicit := false
    isDefined := s.isDefined || a.target.isSome
    target := a.target.orElse fun _ => s.target
    align := max s.align a.align }

namespace Reading

/-- Reads words about what may be done with a pointer. -/
def qualifiers (r : Readers) : Reading Quals :=
  improve {} fun (q : Quals) => do
    match ← peek with
    | some (.word w) =>
      match qualifierWords.lookup w with
      | some more =>
        if w = "restrict" && !(← get).dialect.words.contains w then return none
        skip
        return some (q.union more)
      | none =>
        if attributeWords.contains w then
          let _ ← attributes r
          return some q
        else return none
    | _ => return none

/-- Whether an opening bracket groups a declared name, and does not open a list of parameters. -/
def groups : Reading Bool := do
  match ← peekSecond with
  | some (.mark "*") | some (.mark "(") => return true
  | some (.word w) => return attributeWords.contains w || !(← startsType w)
  | _ => return false

/-- The number of elements of an array, given by an operand. A number that is not known is kept in
the frame. -/
def extentOf (o : Operand) : Reading Extent := do
  require o.type.isInteger
  match ← integerConstant? o with
  | some n =>
    require (0 ≤ n)
    return .known n.toNat
  | none =>
    let p ← get
    if 0 < p.prototypes then return .computed 0
    require !p.frames.isEmpty
    let place ← allot 8 8
    let value ← rvalue o
    let effect := Node.storing (.whole Cell.pointer) (.frame 0 place) (← convertNode .size value)
    setFrame fun f => { f with effects := effect :: f.effects }
    return .computed place

/-- Reads the number of elements of an array after the opening bracket. -/
def extent (r : Readers) : Reading Step := do
  let leads ← acceptWord "static"
  let quals ← qualifiers r
  let isStatic := (← acceptWord "static") || leads
  let words := if isStatic || quals ≠ default then some quals else none
  if !isStatic then
    if ← accept "]" then return .array .missing words
  if (← isNext "*") && (← peekSecond) = some (.mark "]") then
    require (0 < (← get).prototypes)
    skip
    skip
    return .array (.computed 0) words
  let o ← r.assignment
  expect "]"
  return .array (← extentOf o) words

def parameter (r : Readers) : Reading Param := do
  let sp ← r.specifiers
  require (sp.storage.all (· = .register) && !sp.isDeduced && !sp.isThread)
  let d ← r.declarator
  let a ← attributes r
  let isIdle := ((sp.attributes.union d.attributes).union a).isIdle
  let (words, steps) := match d.steps with
    | .array n words :: rest => (words.getD default, Step.array n none :: rest)
    | steps => (default, steps)
  let (quals, t) ← typeOf sp steps
  let quals := if t.isArray then words else quals
  let isRegister := sp.storage = some .register
  if sp.isTypeless then require (isRegister || sp.quals ≠ {})
  return { name := d.name, quals, type := t.decayed, isRegister, isIdle }

/-- The place of a name in the innermost block. -/
def placeOf? (w : String) : Reading (Option Nat) := do
  match ← innermost? w with
  | some (.place _ offset _ _ _) => return some offset
  | _ => return none

/-- Makes the name of a parameter known. It has a place in the frame unless the parameters belong to
no function that is being read. Names that were given ahead keep their places. -/
def bindParam (ahead : List String) (p : Param) : Reading Nat := do
  let point ← get
  let known ← match p.name with
    | some w => if ahead.contains w then placeOf? w else pure none
    | none => pure none
  let offset ← match known with
    | some offset => pure offset
    | none => if 0 < point.prototypes then pure 0 else do
      let rs ← records
      require (← isComplete p.type)
      allot (p.type.sizeOf rs) (max 8 (p.type.alignOf rs))
  if let some w := p.name then
    if known.isNone then require (← innermost? w).isNone
    define w (.place point.depth offset p.quals p.type p.isRegister)
  return offset

/-- Reads names without types up to the closing bracket. -/
def bareNames : Reading (List String) := do
  let first ← name
  let rest ← many do
    if ← accept "," then return some (← name) else return none
  expect ")"
  return first :: rest

/-- Reads parameters up to the closing bracket, with their places in the frame. -/
def parameters (r : Readers) : Reading (Params × List Nat) := do
  if ← accept ")" then return ({ isOpen := (← get).dialect.version < 202000 }, [])
  if let some (.word w) ← peek then
    let isName := !(← startsType w) && !(← isKeyword w)
    let second ← peekSecond
    if isName && (second = some (.mark ",") || second = some (.mark ")")) then
      return ({ isOpen := true, names := ← bareNames }, [])
  let first ← parameter r
  if first.type.isVoid && first.name.isNone && first.quals = {} then
    let _ ← accept ";"
    expect ")"
    return ({}, [])
  require !first.type.isVoid
  let place ← bindParam [] first
  let names (list : List (Param × Nat)) : List String := list.filterMap (·.1.name)
  let (list, ahead, isVariadic, _) ← improve ([(first, place)], ([] : List String), false, false)
    fun (list, ahead, isVariadic, isEnd) => do
      if isEnd then return none
      let isAhead ← accept ";"
      if isAhead then
        if ← accept ")" then return some ([], [], false, true)
      if isAhead || (← accept ",") then
        let (list, ahead) := if isAhead then ([], ahead ++ names list) else (list, ahead)
        if ← accept "..." then
          expect ")"
          return some (list, ahead, true, true)
        let p ← parameter r
        require !p.type.isVoid
        let place ← bindParam ahead p
        return some ((p, place) :: list, ahead, isVariadic, false)
      else
        expect ")"
        return some (list, ahead, isVariadic, true)
  require (ahead.all (names list).contains)
  let list := list.reverse
  let isOpen := list.isEmpty && !isVariadic
  return ({ list := list.map (·.1), isVariadic, isOpen }, list.map (·.2))

/-- Reads the brackets and parameters after a declared name. -/
def suffixes (r : Readers) (d : Declared) : Reading Declared :=
  improve d fun d => do
    if (← isNext "[") && (← peekSecond) ≠ some (.mark "[") then
      skip
      return some { d with steps := d.steps ++ [← extent r] }
    else if ← accept "(" then
      let rest := (← get).tokens
      openBlock
      modify fun p => { p with prototypes := p.prototypes + 1 }
      let (params, _) ← parameters r
      modify fun p => { p with prototypes := p.prototypes - 1 }
      closeBlock
      return some { d with
        steps := d.steps ++ [.function params]
        rest := if d.steps.isEmpty then rest else d.rest }
    else return none

/-- Reads a declared name with its stars, brackets and parameters. -/
def declarator (r : Readers) : Reading Declared := do
  let front ← attributes r
  if ← accept "*" then
    let quals ← qualifiers r
    let d ← r.declarator
    return { d with steps := d.steps ++ [.pointer quals] }
  else
    match ← peek with
    | some (.word w) =>
      if ← isKeyword w then suffixes r { attributes := front }
      else
        skip
        suffixes r { name := some w, attributes := front }
    | some (.mark "(") =>
      if ← groups then
        skip
        let d ← r.declarator
        expect ")"
        let outer ← suffixes r { steps := [] }
        return { d with
          steps := d.steps ++ outer.steps
          attributes := d.attributes.union front
          rest := if d.steps.isEmpty then outer.rest else d.rest }
      else suffixes r { attributes := front }
    | _ => suffixes r { attributes := front }

/-- Reads the name in the library and the attributes after a declared name. -/
def trailing (r : Readers) (d : Declared) : Reading Declared := do
  let d ← if ← acceptWords ["__asm__", "__asm", "asm"] then do
      let parts := (← bracketed).map fun
        | .text _ s => some s
        | _ => none
      require !parts.isEmpty
      let parts ← demand (parts.mapM id)
      pure { d with label := some (String.join parts) }
    else pure d
  let more ← attributes r
  return { d with attributes := d.attributes.union more }

def typeName (r : Readers) : Reading (Quals × CType) := do
  let sp ← r.specifiers
  require (sp.storage.isNone && !sp.isInline && !sp.isDeduced && !sp.isTypeless)
  let d ← r.declarator
  require d.name.isNone
  typeOf sp d.steps

/-- What has to be computed for the types that have been read. -/
def takeEffects : Reading (List Node) := do
  match (← get).frames with
  | [] => return []
  | f :: _ =>
    if f.effects.isEmpty then return []
    setFrame fun f => { f with effects := [] }
    return f.effects.reverse

/-- Whether a declaration of an object or function fits to one before it. -/
def redeclares (old : Symbol) (sp : Specifiers) (quals : Quals) (t : CType) : Bool :=
  let isStatic := sp.storage = some .static
  let isExtern := sp.storage = some .external
  let fits := (old.type.agrees t && (t.isFunction || old.quals = quals))
    || (old.isImplicit && match t with
      | .function r .. => r.isVoid || t.agrees old.type
      | _ => false)
  fits && (isStatic = old.isStatic || (old.isStatic && (isExtern || t.isFunction)))

/-- Declares an object or a function that is known outside of functions, and gives its symbol. -/
def declareOuter (sp : Specifiers) (d : Declared) (w : String) (quals : Quals) (t : CType) :
    Reading Nat := do
  let p ← get
  let isHidden := p.visibility.head?
  match p.outer.get? w with
  | some id =>
    let old ← symbol id
    require (redeclares old sp quals t)
    if old.isImplicit && !old.type.agrees t then
      warn "implicit-function-declaration"
      setSymbol id fun s => { s with type := t }
    setSymbol id fun s => s.declared sp d t isHidden
    return id
  | none =>
    let s : Symbol := { name := w, type := t, quals, isStatic := sp.storage = some .static }
    let id ← addSymbol (s.declared sp d t isHidden)
    modify fun p => { p with outer := p.outer.insert w id }
    return id

/-- Where a declared object is. -/
inductive Target where
  | nothing
  | symbol (id : Nat)
  | place (offset : Nat)
  | distant (offset : Nat)
deriving Inhabited

/-- Gives a type another name. -/
def declareType (w : String) (quals : Quals) (t : CType) : Reading Unit := do
  match ← innermost? w with
  | none => define w (.type quals t)
  | some (.type q u) => require (t.agrees u && q = quals)
  | some _ => refuse

/-- Declares a name outside of functions. -/
def declareTop (sp : Specifiers) (d : Declared) (w : String) (quals : Quals) (t : CType) :
    Reading Target := do
  require (sp.storage.all fun s => s = .static || s = .external)
  match ← innermost? w with
  | none | some (.symbol _) => pure ()
  | some _ => refuse
  let id ← declareOuter sp d w quals t
  define w (.symbol id)
  return .symbol id

def declareInner (sp : Specifiers) (d : Declared) (w : String) (quals : Quals) (t : CType) :
    Reading Target := do
  let found ← innermost? w
  if t.isFunction || sp.storage = some .external then
    require (sp.storage.all (· = .external) && !t.hasComputedSize)
    match found with
    | none | some (.symbol _) => pure ()
    | some _ => refuse
    let id ← declareOuter { sp with storage := some .external } d w quals t
    define w (.symbol id)
    return .nothing
  else
    require found.isNone
    let a := sp.attributes.union d.attributes
    if sp.storage = some .static then
      require !t.isVariable
      let id ← addSymbol
        { name := w ++ ".0", type := t, quals, isStatic := true, isTentative := true, align := a.align
          isUsed := a.isIdle || a.isKept }
      define w (.symbol id)
      return .symbol id
    else
      let rs ← records
      let depth := (← get).depth
      let note (offset : Nat) : Reading Unit :=
        setFrame fun f => { f with
          named := offset :: f.named
          used := if a.isIdle || a.cleanup.isSome then f.used.insert offset else f.used }
      if t.hasComputedSize then
        let offset ← allot 8 8
        note offset
        define w (.distant depth offset quals t)
        return .distant offset
      else
        let offset ← allot (t.sizeOf rs) (max a.align (max 8 (t.alignOf rs)))
        note offset
        define w (.place depth offset quals t (sp.storage = some .register))
        if t.isScalar && !t.isComplex && !quals.isVolatile then
          setFrame fun f => { f with scalars := offset :: f.scalars }
        return .place offset

def declare (sp : Specifiers) (d : Declared) (quals : Quals) (t : CType) : Reading Target := do
  let w ← demand d.name
  if sp.storage = some .typedef then
    require !sp.isThread
    declareType w quals t
    return .nothing
  else
    if sp.isInline && !t.isFunction then warn "other"
    require !(t.isVoid && sp.storage ≠ some .external)
    if sp.isThread then require (!t.isFunction && ((← isOutside) || sp.storage.isSome))
    if ← isOutside then declareTop sp d w quals t else declareInner sp d w quals t

end Reading

end LoopNest.Compiler
