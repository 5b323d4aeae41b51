import LoopNest.Compiler.Reading

/-!
# Operands of C expressions

An operand is a checked expression with its type. An operand that is a place is given by its
address, and so are arrays and functions; any other one is given by its value. The operators build
operands out of operands and refuse those that they have no meaning for.
-/

namespace LoopNest.Compiler

/-- A checked expression. -/
structure Operand where
  node : Node
  type : CType
  quals : Quals := {}
  isPlace : Bool := false
  /-- The place is a number of bits of an integer of this type, from the given bit on. -/
  bits : Option (Integer × Nat × Nat) := none
  isRegister : Bool := false
  /-- The operand is a pointer that points to nothing. -/
  isNull : Bool := false
  /-- The operand is a string with these elements. -/
  text : Option (Integer × List Nat) := none
deriving Inhabited

namespace Operand

def ofInteger (k : Integer) (v : Int) : Operand := { node := .integer v, type := .integer k }

def ofTruth (n : Node) : Operand := { node := n, type := .int }

/-- How the place of an operand is read and written. -/
def access (rs : Records) (o : Operand) : Access :=
  match o.bits with
  | some (k, first, width) => .bits k first width
  | none => .whole (o.type.cell rs)

/-- The type of the integer in some bits, in arithmetic. -/
def bitsType (k : Integer) (width : Nat) : CType :=
  if k = .bool || width < 32 || (width = 32 && k.isSigned) then .int
  else if width = 32 then .integer .unsignedInt
  else .integer k

end Operand

namespace Reading

/-- What is known of objects and functions. Objects that are never changed count if `constObjects`
holds. -/
def known (constObjects : Bool) : Reading Known := do
  let p ← get
  return {
    object := fun id offset access =>
      match p.symbols[id]? with
      | some s =>
        if constObjects && offset = 0 && s.quals.isConst && !s.quals.isVolatile && s.isDefined
          && !s.type.isArray then
          match s.data.find? (·.1 = 0), access with
          | some (_, a, c), access => if a = access then some c else none
          | none, .whole (.integer _) => some (.integer 0)
          | none, .whole (.fraction _) => some (.fraction 0)
          | none, _ => none
        else none
      | none => none
    functionName := fun id => (p.symbols[id]?).bind fun s => if s.isDefined then none else some s.name }

def integerConstant? (o : Operand) : Reading (Option Int) := do
  if !o.type.isInteger || o.isPlace then return none
  match o.node.fold? (← known false) with
  | some (.integer v) => return some v
  | _ => return none

/-- The value of an operand, which has to be an integer constant. -/
def integerConstant (o : Operand) : Reading Int := do demand (← integerConstant? o)

/-- Whether an operand is the integer zero or a pointer to nothing. -/
def isNullConstant (o : Operand) : Reading Bool := do
  if o.isNull then return true
  return (← integerConstant? o) = some 0

/-- A place of the frame of the function that is being read. -/
def framePlace (offset : Nat) (quals : Quals) (t : CType) : Operand :=
  { node := .frame 0 offset, type := t, quals, isPlace := true }

/-- The number of bytes of an object of a type. -/
def sizeNode (t : CType) : Reading Node := do
  let rs ← records
  match t with
  | .array _ e (.computed place) => do
    let size ← elementSize rs e
    return .binary .mul Cell.pointer (.load (.whole Cell.pointer) (.frame 0 place)) size
  | .array _ e (.known n) =>
    if e.hasComputedSize then
      return .binary .mul Cell.pointer (.integer n) (← elementSize rs e)
    else return .integer (t.sizeOf rs)
  | t => return .integer (t.sizeOf rs)
where
  /-- The number of bytes of an element. -/
  elementSize (rs : Records) : CType → Reading Node
    | .array _ e (.computed place) => do
      return .binary .mul Cell.pointer (.load (.whole Cell.pointer) (.frame 0 place))
        (← elementSize rs e)
    | .array _ e (.known n) => do
      return .binary .mul Cell.pointer (.integer n) (← elementSize rs e)
    | t => return .integer (t.sizeOf rs)

/-- The value of an operand: an array gives the address of its first element, a function its own
address, and any other place what it holds. -/
def rvalue (o : Operand) : Reading Operand := do
  match o.type with
  | .array q t _ => return { node := o.node, type := .pointer q t, text := o.text }
  | .function .. => return { node := o.node, type := o.type.decayed }
  | t =>
    if !o.isPlace then return o
    else if t.isVoid then return { node := o.node, type := .void }
    else
      require (← isComplete t)
      let node := Node.load (o.access (← records)) o.node
      match o.bits with
      | some (k, _, width) => return { node, type := Operand.bitsType k width }
      | none => return { node, type := t }

def convertNode (target : CType) (o : Operand) : Reading Node := do
  let source ← cellOf o.type
  let target' ← cellOf target
  match o.type, target with
  | .complex _, .complex _ =>
    return if source = target' then o.node else .operation .recast [source, target'] [o.node]
  | .complex k, t =>
    if t.isVoid then return .convert source target' o.node
    else return Node.converted (.fraction k) target' (.operation .real [source] [o.node])
  | _, .complex k =>
    return .operation .complex [target'] [Node.converted source (.fraction k) o.node, .fraction 0]
  | _, _ => return Node.converted source target' o.node

/-- Whether what two pointers point to is the same, apart from signs if `ignoresSigns` holds. -/
def sameTarget (ignoresSigns : Bool) (t u : CType) : Bool :=
  if t.agrees u then true
  else match t, u with
    | .integer a, .integer b => ignoresSigns && a.unsigned = b.unsigned
    | _, _ => false

/-- Whether a value can be stored as one of a type, and the value of that type. The compiler only
warns of pointers to other things and of integers in the place of pointers. -/
def coerce (target : CType) (o : Operand) : Reading Node := do
  let o ← rvalue o
  let isPlus := (← get).dialect.isPlus
  require !(target.isVoid || o.type.isVoid)
  match target, o.type with
  | .pointer q t, .pointer r u =>
    let isClose := t.isVoid || u.isVoid || sameTarget true t u
    if isPlus then
      require (o.isNull || t.isVoid || (sameTarget false t u && (q.isConst || !r.isConst)))
    else if !isClose then warn "incompatible-pointer-types"
    else if r.isConst && !q.isConst then warn "discarded-qualifiers"
    convertNode target o
  | .pointer _ _, .integer _ | .pointer _ _, .enumeration _ _ =>
    if !(← isNullConstant o) then
      require !isPlus
      warn "int-conversion"
    convertNode target o
  | .integer k, .pointer _ _ =>
    if k ≠ .bool then
      require !isPlus
      warn "int-conversion"
    convertNode target o
  | .enumeration _ _, .pointer _ _ =>
    require !isPlus
    warn "int-conversion"
    convertNode target o
  | .record a, .record b =>
    require (a = b)
    return o.node
  | .record id, t =>
    let r ← demand (← records)[id]?
    require (r.isTransparent && (r.members.getD []).any fun m => m.type.isPointer == t.isPointer)
    convertNode target o
  | target, t =>
    require (target.isNumber && t.isNumber)
    if let .fraction k := t then
      let isNarrower := match target with
        | .fraction c => c = .float && k ≠ .float
        | _ => target.isInteger
      if isNarrower && (o.node.fold? (← known false)).isNone then warn "float-conversion"
    convertNode target o

def truth (o : Operand) : Reading Node := do
  let o ← rvalue o
  require o.type.isScalar
  match o.type with
  | .complex _ => return .operation .complexTruth [← cellOf o.type] [o.node]
  | t => return Node.truth (← cellOf t) o.node

/-- Whether pointers to a type can be moved, and the number of bytes of a step. -/
def stepSize (t : CType) : Reading Node := do
  require (t.isVoid || t.isFunction || (← isComplete t))
  sizeNode t

def moved (op : Operator) (x i : Operand) : Reading Operand := do
  let (_, t) ← demand x.type.target?
  let size ← stepSize t
  let distance := Node.binary .mul (.integer .long) (← convertNode .difference i) size
  return { node := .binary op Cell.pointer x.node distance, type := x.type }

def arithmetic (op : Operator) (x y : Operand) : Reading Operand := do
  let t := x.type.common y.type
  let isPromoted (u : CType) : Bool := u matches .fraction .float
  if t matches .fraction .double && (isPromoted x.type || isPromoted y.type) then
    warn "double-promotion"
  let a ← convertNode t x
  let b ← convertNode t y
  if op = .div || op = .mod then
    if let some (.integer 0) := b.fold? (← known false) then warn "div-by-zero"
  let c ← cellOf t
  let result := if op.isComparison then .int else t
  if t.isComplex then
    require !(op = .lt || op = .le || op = .gt || op = .ge)
    return { node := .operation (.complexOperator op) [c] [a, b], type := result }
  return { node := .binary op c a b, type := result }

def combine (op : Operator) (x y : Operand) : Reading Operand := do
  let x ← rvalue x
  let y ← rvalue y
  if op = .shiftLeft || op = .shiftRight then
    match x.type.integer?, y.type.integer? with
    | some k, some _ =>
      let t := CType.integer k.promoted
      return { node := .binary op (.integer k.promoted) (← convertNode t x) y.node, type := t }
    | _, _ => refuse
  else if op.isBitwise then
    require (x.type.isInteger && y.type.isInteger)
    arithmetic op x y
  else if x.type.isNumber && y.type.isNumber then arithmetic op x y
  else
    match op, x.type, y.type with
    | .add, .pointer _ _, t =>
      require t.isInteger
      moved op x y
    | .add, t, .pointer _ _ =>
      require t.isInteger
      moved op y x
    | .sub, .pointer _ t, .pointer _ u =>
      require (sameTarget false t u)
      let size ← stepSize t
      let bytes := Node.binary .sub (.integer .long) x.node y.node
      return { node := .binary .div (.integer .long) bytes size, type := .difference }
    | .sub, .pointer _ _, t =>
      require t.isInteger
      moved op x y
    | op, t, u =>
      require (op.isComparison && (t.isPointer || t.isInteger) && (u.isPointer || u.isInteger))
      match t, u with
      | .pointer _ a, .pointer _ b =>
        if !(a.isVoid || b.isVoid || sameTarget false a b || x.isNull || y.isNull) then
          warn "compare-distinct-pointer-types"
      | .pointer _ _, _ => if !(← isNullConstant y) then warn "int-conversion"
      | _, _ => if !(← isNullConstant x) then warn "int-conversion"
      let a ← convertNode .size x
      let b ← convertNode .size y
      return .ofTruth (.binary op Cell.pointer a b)

/-- Whether some member of a structure may not be changed. -/
def hasConstMember (rs : Records) (fuel : Nat) (t : CType) : Bool :=
  match fuel, (t.innermost {}).2 with
  | fuel + 1, .record id =>
    match rs[id]? with
    | some r => (r.members.getD []).any fun m =>
        (m.type.innermost m.quals).1.isConst || hasConstMember rs fuel m.type
    | none => false
  | _, _ => false

/-- Refuses an operand that cannot be given a value. -/
def requireChangeable (o : Operand) : Reading Unit := do
  require (o.isPlace && !o.type.isArray && !o.type.isFunction && !o.quals.isConst && !o.type.isVoid)
  require (← isComplete o.type)
  require !(hasConstMember (← records) 8 o.type)

def assign (x y : Operand) : Reading Operand := do
  requireChangeable x
  let value ← coerce x.type y
  let node := Node.storing (x.access (← records)) x.node value
  let type := match x.bits with
    | some (k, _, width) => Operand.bitsType k width
    | none => x.type
  return { node, type }

/-- Changes a place by an operator. The value is the one before the change if `isPost` holds. -/
def assignBy (op : Operator) (isPost : Bool) (x y : Operand) : Reading Operand := do
  requireChangeable x
  let old ← rvalue x
  let y ← rvalue y
  let result ← combine op old y
  let _ ← coerce x.type result
  let access := x.access (← records)
  match old.type, y.type with
  | .pointer _ t, _ =>
    let size ← stepSize t
    let distance := Node.binary .mul (.integer .long) (← convertNode .difference y) size
    return { node := .update access op Cell.pointer isPost x.node distance, type := old.type }
  | t, u =>
    if t.isReal && u.isReal then
      let isShift := op = .shiftLeft || op = .shiftRight
      let c := if isShift then .integer ((t.integer?.getD .int).promoted) else t.common u
      let operand ← if isShift then pure y.node else convertNode c y
      return { node := .update access op (← cellOf c) isPost x.node operand, type := old.type }
    else
      return { node := .storing access x.node (← coerce x.type result), type := old.type }

def dereferenced (o : Operand) : Reading Operand := do
  let o ← rvalue o
  let (quals, t) ← demand o.type.target?
  return { node := o.node, type := t, quals, isPlace := !t.isFunction }

def addressOf (o : Operand) : Reading Operand := do
  if o.type.isFunction then return { node := o.node, type := o.type.decayed }
  require (o.isPlace && o.bits.isNone && !o.isRegister)
  return { node := o.node, type := .pointer o.quals o.type }

/-- The value of an operator with one operand that gives a number. -/
def unaryValue (m : String) (o : Operand) : Reading Operand := do
  let o ← rvalue o
  match m with
  | "!" => return .ofTruth (.binary .eq (.integer .int) (← truth o) (.integer 0))
  | "~" =>
    if o.type.isComplex then
      return { o with node := .operation .conjugate [← cellOf o.type] [o.node] }
    let k := (← demand o.type.integer?).promoted
    return { node := .complement k (← convertNode (.integer k) o), type := .integer k }
  | _ =>
    require o.type.isNumber
    let t := match o.type with
      | .fraction k => .fraction k
      | .complex k => .complex k
      | t => .integer ((t.integer?.getD .int).promoted)
    let n ← convertNode t o
    if m = "+" then return { node := n, type := t }
    if t.isComplex then return { node := .operation .complexNegate [← cellOf t] [n], type := t }
    return { node := .negate (← cellOf t) n, type := t }

/-- The members that a name can stand for, also those of members without a name. The fuel bounds how
deep they are nested. -/
def findMember? (rs : Records) (fuel : Nat) (w : String) (t : CType) : Option Member :=
  match fuel, t with
  | fuel + 1, .record id => do
    let r ← rs[id]?
    let ms ← r.members
    ms.findSome? fun m =>
      match m.name with
      | some v => if v = w then some m else none
      | none => (findMember? rs fuel w m.type).map fun inner =>
          { inner with offset := m.offset + inner.offset, quals := m.quals.union inner.quals }
  | _, _ => none

/-- A value as something with an address: a structure that is no place is kept in the frame. -/
def kept (o : Operand) : Reading Node := do
  if o.isPlace then return o.node
  let rs ← records
  let slot ← allot (o.type.sizeOf rs) (max 8 (o.type.alignOf rs))
  return .sequence (.storing (.whole (o.type.cell rs)) (.frame 0 slot) o.node) (.frame 0 slot)

def member (w : String) (o : Operand) : Reading Operand := do
  require (← isComplete o.type)
  let m ← demand (findMember? (← records) 16 w o.type)
  let address := (← kept o).shifted m.offset
  let place : Operand :=
    { node := address, type := m.type.qualified o.quals, quals := o.quals.union m.quals, isPlace := true
      isRegister := o.isRegister
      bits := m.bits.map fun (first, width) => ((m.type.integer?.getD .int), first, width) }
  if o.isPlace || m.type.isArray then return { place with isPlace := o.isPlace } else rvalue place

/-- The arguments beyond those that a function declares. -/
def promotedArgument (o : Operand) : Reading (Cell × Node) := do
  let o ← rvalue o
  require (!o.type.isVoid && (← isComplete o.type))
  let t := o.type.promoted
  return (← cellOf t, ← convertNode t o)

def passed (isOpen isVariadic : Bool) : List CType → List Operand → Reading (List (Cell × Node))
  | [], args => do
    require (args.isEmpty || isOpen || isVariadic)
    args.mapM promotedArgument
  | t :: ts, a :: args => do
    require (← isComplete t)
    let node ← coerce t a
    return (← cellOf t, node) :: (← passed isOpen isVariadic ts args)
  | _ :: _, [] => refuse

def call (f : Operand) (args : List Operand) : Reading Operand := do
  let f ← rvalue f
  match f.type with
  | .pointer _ (.function result isOpen params isVariadic) =>
    require (result.isVoid || (← isComplete result))
    let passed ← passed isOpen isVariadic params args
    let node := Node.call f.node (← cellOf result) params.length (passed.map (·.1)) (passed.map (·.2))
    return { node, type := result }
  | _ => refuse

/-- A value as one of another type, as it is written in front of an operand. -/
def cast (quals : Quals) (t : CType) (o : Operand) : Reading Operand := do
  let o ← rvalue o
  if t.isVoid then return { node := .convert (← cellOf o.type) .nothing o.node, type := .void }
  match t with
  | .record id =>
    match o.type with
    | .record other =>
      require (id = other)
      return { o with isPlace := false }
    | u =>
      let r ← demand (← records)[id]?
      let ms := r.members.getD []
      require (r.isUnion && ms.any fun m => m.type.agrees u)
      let rs ← records
      let slot ← allot (t.sizeOf rs) (max 8 (t.alignOf rs))
      let place : Operand := framePlace slot {} t
      let store := Node.storing (.whole (u.cell rs)) (.frame 0 slot) o.node
      return { node := .sequence store (.load (place.access rs) place.node), type := t }
  | _ =>
    require (t.isScalar && o.type.isScalar)
    require !((t.isPointer && (o.type.isComplex || (!o.type.isInteger && !o.type.isPointer)))
      || (o.type.isPointer && (t.isComplex || (!t.isInteger && !t.isPointer))))
    let isNull := match t with
      | .pointer q .void => q = {} && quals = {}
      | _ => false
    let isNull := isNull && (← isNullConstant o)
    return { node := ← convertNode t o, type := t, isNull }

/-- The type of what two pointers to things that may differ point to. -/
def commonTarget (q r : Quals) (t u : CType) : CType :=
  .pointer (q.union r) (if t.isVoid then t else if u.isVoid then u else t.join u)

/-- The value of one of two operands, after a condition. -/
def choose (test : Node) (x y : Operand) : Reading Operand := do
  let x ← rvalue x
  let y ← rvalue y
  let made (t : CType) (a b : Node) : Operand := { node := .conditional test a b, type := t }
  match x.type, y.type with
  | .void, .void => return made .void x.node y.node
  | .void, _ | _, .void =>
    let c := Cell.nothing
    return made .void (.convert (← cellOf x.type) c x.node) (.convert (← cellOf y.type) c y.node)
  | .record a, .record b =>
    require (a = b)
    return made x.type x.node y.node
  | .pointer q t, .pointer r u =>
    if x.isNull then return made y.type x.node y.node
    else if y.isNull then return made x.type x.node y.node
    else
      if !(t.isVoid || u.isVoid || sameTarget true t u) then
        warn "incompatible-pointer-types"
        return made (.pointer {} .void) x.node y.node
      return made (commonTarget q r t u) x.node y.node
  | .pointer _ _, u =>
    require u.isInteger
    if !(← isNullConstant y) then warn "int-conversion"
    return made x.type x.node (← convertNode x.type y)
  | t, .pointer _ _ =>
    require t.isInteger
    if !(← isNullConstant x) then warn "int-conversion"
    return made y.type (← convertNode y.type x) y.node
  | t, u =>
    require (t.isNumber && u.isNumber)
    let c := t.common u
    return made c (← convertNode c x) (← convertNode c y)

end Reading

end LoopNest.Compiler
