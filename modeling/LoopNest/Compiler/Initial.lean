import LoopNest.Compiler.Declaration

/-!
# Values that objects start with

Reads what follows the sign of equality in a declaration. Values in braces are for the parts of an
object one after the other; braces around the values of a part may be left out, and a value may name
the part that it is for.
-/

namespace LoopNest.Compiler

namespace Reading

/-- An object whose parts are being given values: its type, its place, and the number of the next
part. -/
structure Cursor where
  type : CType
  base : Nat
  next : Nat
deriving Inhabited

def valuedMembers (rs : Records) (id : Nat) : List Member :=
  match rs[id]? with
  | some r =>
    let ms := (r.members.getD []).filter fun m => m.name.isSome || (m.bits.isNone && m.type.isRecord)
    if r.isUnion then ms.take 1 else ms
  | none => []

def partOf (offset : Nat) (m : Member) : Part :=
  { offset := offset + m.offset, type := m.type, value := default
    bits := m.bits.map fun (first, width) => ((m.type.integer?.getD .int), first, width) }

def Cursor.part? (rs : Records) (c : Cursor) : Option Part :=
  match c.type with
  | .array _ e n =>
    let isIn : Bool := match n with
      | .known n => c.next < n
      | _ => true
    if isIn then some { offset := c.base + c.next * e.sizeOf rs, type := e, value := default } else none
  | .record id => ((valuedMembers rs id)[c.next]?).map (partOf c.base)
  | _ => none

/-- The elements of a string as parts of an array. The element that ends it is left out if there is
no place for it. -/
def textParts (offset : Nat) (t : CType) (size : Nat) (limit : Option Nat) (units : List Nat) :
    List Part :=
  let units := units ++ [0]
  let units := match limit with
    | some n => units.take n
    | none => units
  units.zipIdx.map fun (u, i) =>
    { offset := offset + i * size, type := t, value := .ofInteger .int u }

/-- The parts of an array of characters that a string gives values to, if it can. -/
def textFor? (t : CType) (o : Operand) (offset : Nat) : Option (List Part × CType) :=
  match t, o.text with
  | .array q (.integer k) n, some (j, units) =>
    let fits := if j = .char then k.bytes = 1 && k ≠ .bool else k.unsigned = j.unsigned
    if !fits then none
    else
      let limit := match n with
        | .known n => some n
        | _ => none
      let extent := limit.getD (units.length + 1)
      some (textParts offset (.integer k) k.bytes limit units, .array q (.integer k) (.known extent))
  | _, _ => none

/-- Puts a value into a part or into the first part of it that the value fits. The parts on the way
are added to those whose next parts get the next values. The fuel bounds their number. -/
def place (fuel : Nat) (stack : List Cursor) (p : Part) (o : Operand) :
    Reading (List Cursor × List Part) :=
  match fuel with
  | 0 => refuse
  | fuel + 1 => do
    match textFor? p.type o p.offset with
    | some (ps, _) => return (stack, ps)
    | none =>
      let inner (c : Cursor) : Reading (List Cursor × List Part) := do
        let q ← demand (c.part? (← records))
        place fuel ({ c with next := 1 } :: stack) q o
      match p.type with
      | .array .. => inner ⟨p.type, p.offset, 0⟩
      | .record id =>
        let same : Bool := match o.type with
          | .record other => id = other
          | _ => false
        if same then return (stack, [{ p with value := o }]) else inner ⟨p.type, p.offset, 0⟩
      | _ => return (stack, [{ p with value := o }])

/-- The way to a member of a structure through members without names: the numbers of members. The
fuel bounds how deep they are nested. -/
def pathTo? (rs : Records) (fuel : Nat) (w : String) (id : Nat) : Option (List Nat) :=
  match fuel with
  | 0 => none
  | fuel + 1 =>
    let ms := ((rs[id]?).bind (·.members)).getD []
    let ms := ms.filter fun m => m.name.isSome || (m.bits.isNone && m.type.isRecord)
    ms.zipIdx.findSome? fun (m, i) =>
      match m.name, m.type with
      | some v, _ => if v = w then some [i] else none
      | none, .record inner => (pathTo? rs fuel w inner).map (i :: ·)
      | none, _ => none

/-- Goes along numbers of members, down from an object. -/
def descend (rs : Records) (stack : List Cursor) (c : Cursor) : List Nat → Option (List Cursor × Part)
  | [] => none
  | i :: rest =>
    match c.type with
    | .record id =>
      let ms := (((rs[id]?).bind (·.members)).getD []).filter fun m =>
        m.name.isSome || (m.bits.isNone && m.type.isRecord)
      match ms[i]? with
      | none => none
      | some m =>
        let p := partOf c.base m
        let stack := { c with next := if (rs[id]?).any (·.isUnion) then 1 else i + 1 } :: stack
        if rest.isEmpty then some (stack, p) else descend rs stack ⟨p.type, p.offset, 0⟩ rest
    | _ => none

/-- Reads the name of one part, and gives the part, those around it, and how many parts after it get
the same value. -/
def designator (r : Readers) (stack : List Cursor) (c : Cursor) :
    Reading (Option (List Cursor × Part × Nat)) := do
  let rs ← records
  if ← accept "." then
    let w ← name
    match c.type with
    | .record id =>
      let path ← demand (pathTo? rs 16 w id)
      let (stack, p) ← demand (descend rs stack c path)
      return some (stack, p, 0)
    | _ => refuse
  else if ← accept "[" then
    let first ← integerConstant (← r.conditional)
    let last ← if ← accept "..." then integerConstant (← r.conditional) else pure first
    expect "]"
    match c.type with
    | .array _ e n =>
      let isIn : Bool := match n with
        | .known n => last < n
        | _ => true
      require (0 ≤ first && first ≤ last && isIn)
      let p : Part := { offset := c.base + first.toNat * e.sizeOf rs, type := e, value := default }
      return some ({ c with next := last.toNat + 1 } :: stack, p, (last - first).toNat)
    | _ => refuse
  else return none

/-- Reads the names of the part that a value is for, if there are some. -/
def designators (r : Readers) (bottom : Cursor) : Reading (Option (List Cursor × Part × Nat)) := do
  match ← designator r [] bottom with
  | some first =>
    let found ← improve first fun (stack, p, more) => do
      if (← isNext ".") || (← isNext "[") then
        require (more = 0)
        designator r stack ⟨p.type, p.offset, 0⟩
      else return none
    expect "="
    return some found
  | none =>
    match ← peek, ← peekSecond, bottom.type with
    | some (.word w), some (.mark ":"), .record id =>
      let rs ← records
      skip
      skip
      let path ← demand (pathTo? rs 16 w id)
      let (stack, p) ← demand (descend rs [] bottom path)
      return some (stack, p, 0)
    | _, _, _ => return none

/-- Leaves the objects all of whose parts have values. -/
def exhausted (rs : Records) : List Cursor → List Cursor
  | c :: d :: rest => if (c.part? rs).isNone then exhausted rs (d :: rest) else c :: d :: rest
  | cs => cs

/-- Passes over a value for which there is no part. -/
def excess (r : Readers) : Reading Unit := do
  warn "other"
  if ← accept "\x7b" then
    let _ ← r.values (.array {} .int .missing)
  else
    let _ ← r.assignment

def repeated (count size : Nat) (ps : List Part) : List Part :=
  ((List.range (count + 1)).map fun i => ps.map fun p => { p with offset := p.offset + i * size }).flatten

/-- Reads a value for the next part of an object or for the one that it names. -/
def item (r : Readers) (stack : List Cursor) : Reading (List Cursor × List Part) := do
  let rs ← records
  let bottom ← demand stack.getLast?
  let target ← match ← designators r bottom with
    | some (stack, p, more) => pure (some (stack, p, more))
    | none =>
      let stack := exhausted rs stack
      match stack with
      | [] => pure none
      | c :: rest =>
        pure ((c.part? rs).map fun p => ({ c with next := c.next + 1 } :: rest, p, 0))
  match target with
  | none =>
    excess r
    return (stack, [])
  | some (stack, p, more) =>
    let size := p.type.sizeOf rs
    if ← accept "\x7b" then
      let (ps, _) ← r.values p.type
      return (stack, repeated more size (ps.map fun q => { q with offset := p.offset + q.offset }))
    else
      let o ← r.assignment
      let (stack, ps) ← place 64 stack p o
      return (stack, repeated more size ps)

def withExtent (t : CType) (n : Nat) : CType :=
  match t with
  | .array q e .missing => .array q e (.known n)
  | t => t

/-- Reads values up to the closing brace. -/
def values (r : Readers) (t : CType) : Reading (List Part × CType) := do
  match t with
  | .array .. | .record _ =>
    require !t.hasComputedSize
    if let .record _ := t then require (← isComplete t)
    let isText := match ← peek, ← peekSecond with
      | some (.text _ _), some (.mark "\x7d") | some (.text _ _), some (.mark ",") => true
      | some (.text _ _), some (.text _ _) => true
      | _, _ => false
    let isChars := match t with
      | .array _ (.integer _) _ => true
      | _ => false
    if isText && isChars then
      let o ← r.assignment
      match textFor? t o 0 with
      | some (ps, t) =>
        let _ ← accept ","
        expect "\x7d"
        return (ps, t)
      | none => refuse
    let (_, lists, most, _) ← improve ([Cursor.mk t 0 0], ([] : List (List Part)), 0, false)
      fun (stack, lists, most, isEnd) => do
        if isEnd then return none
        if ← accept "\x7d" then return some (stack, lists, most, true)
        let (stack, ps) ← item r stack
        let most := max most ((stack.getLast?.map (·.next)).getD 0)
        let isEnd ← if ← accept "," then pure false else do
          expect "\x7d"
          pure true
        return some (stack, ps :: lists, most, isEnd)
    return (lists.reverse.flatten, withExtent t most)
  | t =>
    require !(← isNext "\x7d")
    let (parts, _) ← do
      if ← accept "\x7b" then r.values t
      else
        let _ ← if (← isNext ".") || (← isNext "[") then refuse else pure ()
        let o ← r.assignment
        pure ([{ offset := 0, type := t, value := o }], t)
    let _ ← many do
      if ← accept "," then
        if ← isNext "\x7d" then return none
        excess r
        return some ()
      else return none
    expect "\x7d"
    return (parts, t)

/-- Reads the value of an object of a type: its parts, its type with the number of elements, and
whether the other parts are zero. -/
def initializer (r : Readers) (t : CType) : Reading (List Part × CType × Bool) := do
  if ← accept "\x7b" then
    let (ps, t) ← r.values t
    return (ps, t, true)
  else
    let o ← r.assignment
    match t with
    | .array .. =>
      let (ps, t) ← demand (textFor? t o 0)
      return (ps, t, true)
    | t => return ([{ offset := 0, type := t, value := o }], t, false)

def Part.access (rs : Records) (p : Part) : Access :=
  match p.bits with
  | some (k, first, width) => .bits k first width
  | none => .whole (p.type.cell rs)

/-- The statements that give the parts of an object at an address their values. -/
def store (address : Node) (t : CType) (isZeroed : Bool) (ps : List Part) : Reading (List Stmt) := do
  let rs ← records
  let isAggregate := t.isArray || t.isRecord
  let zero := if isZeroed && isAggregate then
      [Stmt.expression (.operation .zero [.block (t.sizeOf rs)] [address])]
    else []
  let stores ← ps.mapM fun p => do
    require (p.offset + p.type.sizeOf rs ≤ t.sizeOf rs)
    let value ← coerce p.type p.value
    return Stmt.expression (.storing (Part.access rs p) (address.shifted p.offset) value)
  return zero ++ stores

/-- The value of a part of an object that is always there. It has to be known. -/
def constantPart (p : Part) : Reading (List (Nat × Access × Constant)) := do
  let rs ← records
  let value ← coerce p.type p.value
  match value.fold? (← known true), value with
  | some c, _ => return [(p.offset, Part.access rs p, c)]
  | none, .load (.whole (.block _)) (.symbol id) =>
    let s ← symbol id
    require s.name.isEmpty
    return s.data.map fun (offset, access, c) => (p.offset + offset, access, c)
  | none, _ => refuse

/-- Gives an object that is always there its value. -/
def setData (id : Nat) (t : CType) (ps : List Part) : Reading Unit := do
  let rs ← records
  let data ← ps.mapM constantPart
  let size := t.sizeOf rs
  let most := ps.foldl (fun most p => max most (p.offset + p.type.sizeOf rs)) size
  setSymbol id fun s => { s with
    type := t, isDefined := true, data := data.flatten, extra := most - size }

end Reading

end LoopNest.Compiler
