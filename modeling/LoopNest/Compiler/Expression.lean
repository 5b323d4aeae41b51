import LoopNest.Compiler.Builtin
import LoopNest.Compiler.Initial
import LoopNest.Compiler.Literal

/-!
# Expressions of C

Reads expressions and checks the types of their operands.
-/

namespace LoopNest.Compiler

namespace Reading

/-- A string that is always there. Strings with the same elements are one object. -/
def textObject (k : Integer) (units : List Nat) : Reading Operand := do
  let n := units.length + 1
  let t := CType.array {} (.integer k) (.known n)
  let data := (units.zipIdx.filter (·.1 ≠ 0)).map fun (u, i) =>
    (i * k.bytes, Access.whole (.integer k), Constant.integer (k.wrap u))
  let p ← get
  let id ← match p.texts.get? (k.bytes, units) with
    | some id => pure id
    | none => do
      let id ← addSymbol { name := "", type := t, isStatic := true, isDefined := true, data }
      modify fun p => { p with texts := p.texts.insert (k.bytes, units) id }
      pure id
  return { node := .symbol id, type := t, isPlace := true, text := some (k, units) }

/-- Reads strings that follow each other, which are one. -/
def text : Reading Operand := do
  let pieces ← many do
    match ← peek with
    | some (.text encoding s) =>
      skip
      return some (encoding, s)
    | _ => return none
  let encodings := (pieces.map (·.1)).filter (!·.isEmpty)
  require (encodings.eraseDups.length ≤ 1)
  let k := Literal.elementType (encodings.headD "")
  textObject k (← demand (Literal.elements? k (pieces.map (·.2))))

def complexNumber (k : Fraction) (x y : Node) : Reading Operand := do
  let t := CType.complex k
  return { node := .operation .complex [← cellOf t] [x, y], type := t }

def number (s : String) : Reading Operand := do
  match Literal.whole? s with
  | some w =>
    let k := w.type
    if !k.holds w.value || k = .int128 then warn "overflow"
    return .ofInteger k (k.wrap w.value)
  | none =>
    match Literal.fraction? s with
    | some (v, k) =>
      if k = .double && s.toList.getLast?.all (fun c => c.isDigit || c = '.') then
        warn "unsuffixed-float-constants"
      return { node := .fraction v, type := .fraction k }
    | none =>
      let isImaginary (c : Char) : Bool := ['i', 'I', 'j', 'J'].contains c
      require ((s.toList.filter isImaginary).length = 1)
      let plain := String.ofList (s.toList.filter (!isImaginary ·))
      match Literal.fraction? plain, Literal.whole? plain with
      | some (v, k), _ =>
        complexNumber k (.fraction 0) (.fraction v)
      | none, some w => complexNumber .double (.fraction 0) (.fraction (Float.ofNat w.value))
      | none, none => refuse

/-- The name of the function that is being read, as a string. -/
def functionTitle : Reading Operand := do
  match (← get).frames with
  | [] => textObject .char []
  | f :: _ =>
    match f.title with
    | some id =>
      let s ← symbol id
      return { node := .symbol id, type := s.type, isPlace := true }
    | none =>
      let o ← textObject .char (f.name.toUTF8.toList.map UInt8.toNat)
      if let .symbol id := o.node then setFrame fun f => { f with title := some id }
      return { o with text := none, type := o.type.qualified { isConst := true } }

/-- What a name stands for in an expression. -/
def named (r : Readers) (w : String) : Reading Operand := do
  let depth := (← get).depth
  match ← meaning? w with
  | some (.symbol id) =>
    let s ← symbol id
    if !s.isUsed then setSymbol id fun s => { s with isUsed := true }
    return { node := .symbol id, type := s.type, quals := s.quals, isPlace := !s.type.isFunction }
  | some (.constant v t) => return { node := .integer v, type := t }
  | some (.place home offset quals t isRegister) =>
    markPlace home offset
    return { node := .frame (depth - home) offset, type := t, quals, isPlace := true, isRegister }
  | some (.distant home offset quals t) =>
    markPlace home offset
    let address := Node.load (.whole Cell.pointer) (.frame (depth - home) offset)
    return { node := address, type := t, quals, isPlace := true }
  | some (.type _ _) => refuse
  | none =>
    if w.startsWith Builtin.opening then compilerFunction r w
    else if ← isNext "(" then implicit r w
    else refuse

/-- Reads a choice between operands by the type of another one, after its word. -/
def genericSelection (r : Readers) : Reading Operand := do
  expect "("
  let control ← rvalue (← r.assignment)
  let (found, other, _) ← improve ((none : Option Operand), (none : Option Operand), false)
    fun (found, other, isEnd) => do
      if isEnd then return none
      if ← accept ")" then return some (found, other, true)
      expect ","
      if ← acceptWord "default" then
        require other.isNone
        expect ":"
        return some (found, some (← r.assignment), false)
      else
        let (_, t) ← typeName r
        require (← isComplete t)
        expect ":"
        let o ← r.assignment
        if t.agrees control.type then
          require found.isNone
          return some (some o, other, false)
        else return some (found, other, false)
  demand (found.orElse fun _ => other)

/-- The place of a member in a structure, as a constant distance. -/
def offsetOf (r : Readers) : Reading Operand := do
  expect "("
  let (_, t) ← typeName r
  expect ","
  let start : Operand := { node := .integer 0, type := t, isPlace := true }
  let first ← member (← name) start
  let last ← improve first fun o => do
    if ← accept "." then return some (← member (← name) o)
    else if ← accept "[" then
      let i ← r.expression
      expect "]"
      return some (← dereferenced (← combine .add o i))
    else return none
  expect ")"
  require last.bits.isNone
  return { node := last.node, type := .size }

/-- Reads the operand of a word of the compiler that is like a function of types. -/
def typeFunction (r : Readers) (w : String) : Reading Operand := do
  match w with
  | "__builtin_offsetof" => offsetOf r
  | "__builtin_types_compatible_p" =>
    expect "("
    let (_, t) ← typeName r
    expect ","
    let (_, u) ← typeName r
    expect ")"
    return .ofInteger .int (if t.agrees u then 1 else 0)
  | "__builtin_choose_expr" =>
    expect "("
    let test ← integerConstant (← r.assignment)
    expect ","
    let x ← r.assignment
    expect ","
    let y ← r.assignment
    expect ")"
    return if test ≠ 0 then x else y
  | "__builtin_va_arg" =>
    expect "("
    let ap ← rvalue (← r.assignment)
    expect ","
    let (_, t) ← typeName r
    expect ")"
    require ((← isComplete t) && ap.type.isPointer)
    return { node := .operation .nextArgument [← cellOf t] [ap.node], type := t }
  | "__builtin_complex" =>
    expect "("
    let x ← rvalue (← r.assignment)
    expect ","
    let y ← rvalue (← r.assignment)
    expect ")"
    match x.type, y.type with
    | .fraction a, .fraction b =>
      require (a = b)
      complexNumber a x.node y.node
    | _, _ => refuse
  | _ => refuse

/-- Reads a block that gives the value of its last statement, after the opening bracket. -/
def statementValue (r : Readers) : Reading Operand := do
  require !(← isOutside)
  expect "\x7b"
  openBlock
  modify fun p => { p with last := none }
  let ss ← r.block { inLoop := true, inSwitch := true }
  closeBlock
  expect ")"
  match ss.getLast?, (← get).last with
  | some (.expression _), some (n, t) =>
    modify fun p => { p with last := none }
    return { node := .run (.block ss.dropLast) n, type := t }
  | _, _ => return { node := .run (.block ss) (.integer 0), type := .void }

/-- Reads an operand without the operators around it. -/
def primary (r : Readers) : Reading Operand := do
  match ← peek with
  | some (.number s) =>
    skip
    number s
  | some (.character encoding s) =>
    skip
    let (v, k) ← demand (Literal.character? encoding s)
    return .ofInteger k v
  | some (.text _ _) => text
  | some (.mark "(") =>
    skip
    if ← isNext "\x7b" then statementValue r
    else
      let o ← r.expression
      expect ")"
      return o
  | some (.word w) =>
    match w with
    | "__func__" | "__FUNCTION__" | "__PRETTY_FUNCTION__" =>
      skip
      functionTitle
    | "_Generic" =>
      skip
      genericSelection r
    | "__builtin_offsetof" | "__builtin_types_compatible_p" | "__builtin_choose_expr"
    | "__builtin_va_arg" | "__builtin_complex" =>
      skip
      typeFunction r w
    | _ => named r (← name)
  | _ => refuse

/-- Reads arguments up to the closing bracket. -/
def arguments (r : Readers) : Reading (List Operand) := do
  if ← accept ")" then return []
  let first ← r.assignment
  let rest ← many do
    if ← accept "," then return some (← r.assignment) else return none
  expect ")"
  return first :: rest

/-- The name of the function of an operand, if the compiler has an operation of that name. -/
def operationName? (o : Operand) : Reading (Option String) := do
  match o.node with
  | .symbol id =>
    let s ← symbol id
    return if s.isImplicit then some s.name else none
  | _ => return none

def applied (o : Operand) (args : List Operand) : Reading Operand := do
  match ← operationName? o with
  | some w =>
    match ← generic? w args with
    | some result => return result
    | none => call o args
  | none => call o args

/-- Reads subscripts, arguments and members after an operand. -/
def trailers (r : Readers) (o : Operand) : Reading Operand :=
  improve o fun o => do
    match ← peek with
    | some (.mark "[") =>
      skip
      let i ← r.expression
      expect "]"
      let sum ← combine .add o i
      require sum.type.isPointer
      let place ← dereferenced sum
      require !place.type.isFunction
      return some { place with isRegister := o.isRegister && o.type.isArray }
    | some (.mark "(") =>
      skip
      return some (← applied o (← arguments r))
    | some (.mark ".") =>
      skip
      return some (← member (← name) o)
    | some (.mark "->") =>
      skip
      return some (← member (← name) (← dereferenced o))
    | some (.mark "++") =>
      skip
      return some (← assignBy .add true o (.ofInteger .int 1))
    | some (.mark "--") =>
      skip
      return some (← assignBy .sub true o (.ofInteger .int 1))
    | _ => return none

/-- An operand after what has to be computed for its type. -/
def after (effects : List Node) (o : Operand) : Operand :=
  { o with node := effects.foldr .sequence o.node }

/-- An object made of values in braces, after its type and the opening brace. -/
def literal (r : Readers) (quals : Quals) (t : CType) : Reading Operand := do
  let (ps, t) ← r.values t
  require (← isComplete t)
  if ← isOutside then
    let id ← addSymbol { name := "", type := t, quals, isStatic := true, isDefined := true }
    setData id t ps
    return { node := .symbol id, type := t, quals, isPlace := true }
  else
    let rs ← records
    let slot ← allot (t.sizeOf rs) (max 8 (t.alignOf rs))
    let ss ← store (.frame 0 slot) t true ps
    return { node := .run (.block ss) (.frame 0 slot), type := t, quals, isPlace := true }

/-- Reads a type in brackets and the operand or the values after it. -/
def castOrLiteral (r : Readers) : Reading Operand := do
  expect "("
  let (quals, t) ← typeName r
  let effects ← takeEffects
  expect ")"
  if ← accept "\x7b" then trailers r (after effects (← literal r quals t))
  else return after effects (← cast quals t (← r.unary))

def sizeOf (t : CType) : Reading Operand := do
  require (t.isVoid || t.isFunction || (← isComplete t))
  return { node := ← sizeNode t, type := .size }

/-- Reads a type in brackets or an operand, after a word that asks about its type. -/
def typeOrOperand (r : Readers) : Reading (List Node × CType) := do
  if ← castNext then
    let before ← get
    skip
    let (_, t) ← typeName r
    let effects ← takeEffects
    expect ")"
    if ← isNext "\x7b" then
      set before
      let o ← r.unary
      require o.bits.isNone
      return ([], o.type)
    return (effects, t)
  else
    let o ← r.unary
    require o.bits.isNone
    return ([], o.type)

/-- The label of a name in the function that is being read. -/
def labelOf (w : String) : Reading Nat := do
  match (← get).frames with
  | [] => refuse
  | f :: _ =>
    match f.labels.lookup w with
    | some id => return id
    | none =>
      let id ← freshLabel
      setFrame fun f => { f with labels := (w, id) :: f.labels }
      return id

/-- The operand that stands for one part of a complex number. -/
def complexPart (part : Operation) (o : Operand) : Reading Operand := do
  let o ← rvalue o
  match o.type with
  | .complex k => return { node := .operation part [← cellOf o.type] [o.node], type := .fraction k }
  | t =>
    require t.isReal
    let zero := Node.zero (← cellOf t)
    return if part = .real then o else { node := zero, type := t }

def unary (r : Readers) : Reading Operand := do
  match ← peek with
  | some (.mark "(") => if ← castNext then castOrLiteral r else trailers r (← primary r)
  | some (.mark m) =>
    match m with
    | "++" | "--" =>
      skip
      let o ← r.unary
      assignBy (if m = "++" then .add else .sub) false o (.ofInteger .int 1)
    | "&" =>
      skip
      addressOf (← r.unary)
    | "*" =>
      skip
      dereferenced (← r.unary)
    | "+" | "-" | "~" | "!" =>
      skip
      unaryValue m (← r.unary)
    | "&&" =>
      skip
      let id ← labelOf (← name)
      return { node := .label id, type := .pointerTo .void }
    | _ => refuse
  | some (.word w) =>
    match w with
    | "sizeof" =>
      skip
      let (effects, t) ← typeOrOperand r
      return after effects (← sizeOf t)
    | "_Alignof" | "__alignof__" | "__alignof" =>
      skip
      let (_, t) ← typeOrOperand r
      require (t.isVoid || t.isFunction || (← isComplete t) || t.isOpenArray)
      return .ofInteger .unsignedLong (t.alignOf (← records))
    | "__extension__" =>
      skip
      r.unary
    | "__real__" | "__real" =>
      skip
      complexPart .real (← r.unary)
    | "__imag__" | "__imag" =>
      skip
      complexPart .imaginary (← r.unary)
    | _ => trailers r (← primary r)
  | _ => trailers r (← primary r)

/-- How tightly an operator binds. -/
def level? : String → Option Nat
  | "||" => some 1
  | "&&" => some 2
  | "|" => some 3
  | "^" => some 4
  | "&" => some 5
  | "==" | "!=" => some 6
  | "<" | ">" | "<=" | ">=" => some 7
  | "<<" | ">>" => some 8
  | "+" | "-" => some 9
  | "*" | "/" | "%" => some 10
  | _ => none

/-- The value of an operator that is written with a mark. -/
def operate (m : String) (x y : Operand) : Reading Operand := do
  match m with
  | "&&" => return .ofTruth (.both (← truth x) (← truth y))
  | "||" => return .ofTruth (.either (← truth x) (← truth y))
  | m => combine (← demand (Operator.ofMark? m)) x y

/-- Reads the operators after an operand that bind at least as tightly as given, with their right
operands. The fuel bounds their number. -/
def chain (r : Readers) (fuel : Nat) (least : Nat) (x : Operand) : Reading Operand :=
  match fuel with
  | 0 => refuse
  | fuel + 1 => do
    match ← peek with
    | some (.mark m) =>
      match level? m with
      | some level =>
        if level < least then return x
        else
          skip
          let y ← r.unary
          let y ← chain r fuel (level + 1) y
          let z ← operate m x y
          chain r fuel least z
      | none => return x
    | _ => return x

/-- The operand itself if it is true, and another one if it is not. -/
def itself (x y : Operand) : Reading Operand := do
  let x ← rvalue x
  if (x.node.fold? (← known false)).isSome || (← isOutside) then choose (← truth x) x y
  else
    let rs ← records
    let slot ← allot 16 16
    let place := framePlace slot {} x.type
    let keep := Node.storing (place.access rs) place.node x.node
    let result ← choose (← truth place) place y
    return { result with node := .sequence (.convert (x.type.cell rs) .nothing keep) result.node }

def conditional (r : Readers) : Reading Operand := do
  let x ← chain r limit 1 (← r.unary)
  if ← accept "?" then
    if ← accept ":" then itself x (← r.conditional)
    else
      let test ← truth x
      let y ← r.expression
      expect ":"
      let z ← r.conditional
      choose test y z
  else return x

def assignMarks : List (String × Operator) :=
  [("*=", .mul), ("/=", .div), ("%=", .mod), ("+=", .add), ("-=", .sub), ("<<=", .shiftLeft),
    (">>=", .shiftRight), ("&=", .and), ("^=", .xor), ("|=", .or)]

def assignment (r : Readers) : Reading Operand := do
  let x ← r.conditional
  match ← peek with
  | some (.mark "=") =>
    skip
    assign x (← r.assignment)
  | some (.mark m) =>
    match assignMarks.lookup m with
    | some op =>
      skip
      assignBy op false x (← r.assignment)
    | none => return x
  | _ => return x

def expression (r : Readers) : Reading Operand := do
  let first ← r.assignment
  improve first fun x => do
    if ← accept "," then
      let a ← rvalue x
      let y ← rvalue (← r.assignment)
      return some { node := .sequence (.convert (← cellOf a.type) .nothing a.node) y.node, type := y.type }
    else return none

end Reading

end LoopNest.Compiler
