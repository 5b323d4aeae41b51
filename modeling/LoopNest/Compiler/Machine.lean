import LoopNest.Compiler.Process

/-!
# Running C code

Evaluates expressions and runs statements in a process. The frames of the functions around the code
are known by their addresses, the innermost one first. A statement can also be entered at a label
inside of it, which is how code goes on after a jump.
-/

namespace LoopNest.Compiler

/-- A function that can be called. -/
inductive Routine where
  | code (c : FunctionCode)
  | library (name : String)
deriving Inhabited

/-- The objects and functions of a library in memory. -/
structure Image where
  /-- The addresses of symbols. A function inside of another one has none of its own. -/
  addresses : Array Nat := #[]
  routines : Array (Option Routine) := #[]
deriving Inhabited

/-- What code needs to run: the objects and functions, and a way to call a function with the frames
around it and its arguments. -/
structure Context where
  image : Image
  call : Nat → List Nat → List (Cell × Value) → Run Value

namespace Image

/-- The number of functions that a function stands in. -/
def around (image : Image) (id : Nat) : Nat :=
  match image.routines[id]? with
  | some (some (.code c)) => c.around
  | _ => 0

/-- The frames around a function, out of those around the code that uses it. -/
def parents (image : Image) (bases : List Nat) (id : Nat) : List Nat :=
  match image.around id with
  | 0 => []
  | n => bases.drop (bases.length - n)

/-- The address of a symbol. That of a function inside of another one also stands for the frames
around it. -/
def addressOf (image : Image) (bases : List Nat) (id : Nat) : Run Int := do
  match image.addresses[id]? with
  | some 0 =>
    if image.around id = 0 then return 0
    let n := (← get).closures.size
    modify fun p => { p with closures := p.closures.push (id, image.parents bases id) }
    return Memory.closureBase + n * Memory.functionStep
  | some a => return a
  | none => Run.fault

/-- The function at an address, with the frames around it. -/
def functionAt (address : Int) : Run (Nat × List Nat) := do
  if Memory.closureBase ≤ address then
    let n := (address - Memory.closureBase) / Memory.functionStep
    Run.demand (← get).closures[n.toNat]?
  else if Memory.functionBase ≤ address then
    return (((address - Memory.functionBase) / Memory.functionStep).toNat, [])
  else Run.fault

end Image

namespace Complex

/-- The type of the parts of a complex number. -/
def kindOf (size : Nat) : Fraction := if size = 8 then .float else if size = 16 then .double else .extended

/-- The parts of a complex number, by its bytes. -/
def parts (b : ByteArray) : Float × Float :=
  let m : Memory := { low := Memory.zeros Memory.lowest ++ b, stack := .empty }
  let k := kindOf b.size
  let part (offset : Nat) : Float := match m.load? (.fraction k) (Memory.lowest + offset) with
    | some (.fraction v) => v
    | _ => 0
  (part 0, part k.bytes)

/-- The bytes of a complex number with two parts. -/
def ofParts (size : Nat) (x y : Float) : ByteArray :=
  let k := kindOf size
  let m : Memory := { low := Memory.zeros (Memory.lowest + size), stack := .empty }
  let filled := do
    let m ← m.store? (.fraction k) Memory.lowest (.fraction (k.round x))
    m.store? (.fraction k) (Memory.lowest + k.bytes) (.fraction (k.round y))
  match filled with
  | some m => m.low.extract Memory.lowest (Memory.lowest + size)
  | none => .empty

def operate (op : Operator) (size : Nat) (x y : Float × Float) : Value :=
  let (a, b) := x
  let (c, d) := y
  match op with
  | .add => .block (ofParts size (a + c) (b + d))
  | .sub => .block (ofParts size (a - c) (b - d))
  | .mul => .block (ofParts size (a * c - b * d) (a * d + b * c))
  | .div =>
    let isSteep := c.abs < d.abs
    let ratio := if isSteep then c / d else d / c
    let scale := if isSteep then c * ratio + d else d * ratio + c
    if isSteep then .block (ofParts size ((a * ratio + b) / scale) ((b * ratio - a) / scale))
    else .block (ofParts size ((b * ratio + a) / scale) ((b - a * ratio) / scale))
  | .eq => .integer (truthValue (a == c && b == d))
  | .ne => .integer (truthValue !(a == c && b == d))
  | _ => .nothing

end Complex

namespace Question

/-- Whether a fraction is too small for the full precision of its type. -/
def isSmall (k : Fraction) (v : Float) : Bool :=
  v.abs < (match k with
    | .float => Float.scaleB 1 (-126)
    | _ => Float.scaleB 1 (-1022))

/-- The answer to a question about a fraction of a type. -/
def answer (q : Question) (k : Fraction) (v : Float) : Int :=
  match q with
  | .isNaN => truthValue v.isNaN
  | .isInfinite => truthValue v.isInf
  | .infiniteSign => if v.isInf then (if v < 0 then -1 else 1) else 0
  | .isFinite => truthValue v.isFinite
  | .isNormal => truthValue (v.isFinite && !isSmall k v)
  | .isNegative => truthValue (Mathematics.isNegative v)

end Question

/-- The value of an operation of the compiler in a function with a frame. -/
def Operation.apply (base : Nat) (op : Operation) (cells : List Cell) (args : List Value) :
    Run Value := do
  match op, cells, args with
  | .zero, [.block n], [.integer a] =>
    Run.storeBytes a (Memory.zeros n)
    return .nothing
  | .allocate, _, [.integer size] => return .integer (← Run.reserve size.toNat)
  | .startArguments, _, [.integer ap] =>
    Run.store Cell.pointer (ap + 8) (← Run.load Cell.pointer base)
    return .nothing
  | .copyArguments, _, [.integer a, .integer b] =>
    Run.storeBytes a (← Run.loadBytes b 24)
    return .nothing
  | .nextArgument, [c], [.integer ap] =>
    let (size, align) := match c with
      | .integer k => (k.bytes, if k.bytes = 16 then 16 else 8)
      | .fraction k => (k.bytes, if k.bytes = 16 then 16 else 8)
      | .block n => (n, 8)
      | .nothing => (0, 8)
    let place ← Run.integer (Run.load Cell.pointer (ap + 8))
    let place := roundUp place.toNat align
    let v ← Run.load c place
    Run.store Cell.pointer (ap + 8) (.integer (place + roundUp size 8 : Nat))
    return v
  | .checked, [.integer k], [.integer v, .integer place] =>
    Run.store (.integer k) place (.integer (k.wrap v))
    return .integer (truthValue (k.wrap v != v))
  | .exchange, [c], [.integer place, v] =>
    let old ← Run.load c place
    Run.store c place v
    return old
  | .classify, [.fraction k], [a, b, c, d, e, .fraction v] =>
    return if v.isNaN then a else if v.isInf then b else if v == 0 then e
      else if Question.isSmall k v then d else c
  | .ask q, [.fraction k], [.fraction v] => return .integer (q.answer k v)
  | .unordered, _, [.fraction x, .fraction y] => return .integer (truthValue (x.isNaN || y.isNaN))
  | .unequal, _, [.fraction x, .fraction y] => return .integer (truthValue (x < y || y < x))
  | .complex, [.block n], [.fraction x, .fraction y] => return .block (Complex.ofParts n x y)
  | .recast, [_, .block n], [.block b] =>
    let (x, y) := Complex.parts b
    return .block (Complex.ofParts n x y)
  | .real, _, [.block b] => return .fraction (Complex.parts b).1
  | .imaginary, _, [.block b] => return .fraction (Complex.parts b).2
  | .complexOperator op, [.block n], [.block x, .block y] =>
    return Complex.operate op n (Complex.parts x) (Complex.parts y)
  | .complexNegate, [.block n], [.block b] =>
    let (x, y) := Complex.parts b
    return .block (Complex.ofParts n (-x) (-y))
  | .conjugate, [.block n], [.block b] =>
    let (x, y) := Complex.parts b
    return .block (Complex.ofParts n x (-y))
  | .complexTruth, _, [.block b] =>
    let (x, y) := Complex.parts b
    return .integer (truthValue (x != 0 || y != 0))
  | _, _, _ => Run.fault

def Value.negate (c : Cell) (v : Value) : Run Value :=
  match c, v with
  | .integer k, .integer v => pure (.integer (k.wrap (-v)))
  | .fraction _, .fraction v => pure (.fraction (-v))
  | _, _ => Run.fault

/-- What a function gives as a value of a cell. A function that gives nothing stands for zero. -/
def Value.asResult (c : Cell) (v : Value) : Value :=
  match c, v with
  | .integer _, .nothing => .integer 0
  | .fraction _, .nothing => .fraction 0
  | .block n, .nothing => .block (Memory.zeros n)
  | .integer k, .integer v => .integer (k.wrap v)
  | _, v => v

def Access.cell : Access → Cell
  | .whole c => c
  | .bits k _ _ => .integer k

def updateAt (access : Access) (op : Operator) (c : Cell) (isPost : Bool) (address : Int)
    (operand : Value) : Run Value := do
  let old ← Run.read access address
  let new ← Run.demand (Value.operate? op c (old.convert c) operand)
  let new := Memory.written access (new.convert access.cell)
  Run.write access address new
  return if isPost then old else new

/-- The label that a value of a selection goes to. -/
def labelFor (ranges : List (Int × Int × Nat)) (other : Option Nat) (v : Int) : Option Nat :=
  match ranges.find? fun (low, high, _) => low ≤ v && v ≤ high with
  | some (_, _, label) => some label
  | none => other

/-- Runs the statements of a block again from a label as long as they jump to one of it. The fuel
bounds the number of jumps. -/
def Stmt.restart (runFrom : Nat → Run Flow) (fuel label : Nat) : Run Flow :=
  match fuel with
  | 0 => Run.fault
  | fuel + 1 => fun p =>
    match runFrom label p with
    | .ok .absent p => .ok (.jump label) p
    | .ok (.jump l) p => Stmt.restart runFrom fuel l p
    | r => r

mutual
def Node.eval (ctx : Context) (bases : List Nat) : Node → Run Value
  | .integer v => pure (.integer v)
  | .fraction v => pure (.fraction v)
  | .frame up offset => pure (.integer (bases.getD up 0 + offset : Nat))
  | .symbol id => do return .integer (← ctx.image.addressOf bases id)
  | .label id => pure (.integer (Memory.labelBase + id * Memory.functionStep : Nat))
  | .load access address => do
    let a ← Run.integer (address.eval ctx bases)
    Run.read access a
  | .store access false address value => do
    let v ← value.eval ctx bases
    let a ← Run.integer (address.eval ctx bases)
    Run.write access a v
    return Memory.written access v
  | .store access true address value => do
    let a ← Run.integer (address.eval ctx bases)
    let v ← value.eval ctx bases
    Run.write access a v
    return Memory.written access v
  | .update access op c isPost address operand => do
    let y ← operand.eval ctx bases
    let a ← Run.integer (address.eval ctx bases)
    updateAt access op c isPost a y
  | .negate c x => do Value.negate c (← x.eval ctx bases)
  | .complement k x => do
    let v ← Run.integer (x.eval ctx bases)
    return .integer (k.wrap (-v - 1))
  | .binary op c x y => do
    let a ← x.eval ctx bases
    let b ← y.eval ctx bases
    Run.demand (Value.operate? op c a b)
  | .convert _ target x => do return (← x.eval ctx bases).convert target
  | .both x y => do
    if (← x.eval ctx bases).isTrue then return .integer (truthValue (← y.eval ctx bases).isTrue)
    else return .integer 0
  | .either x y => do
    if (← x.eval ctx bases).isTrue then return .integer 1
    else return .integer (truthValue (← y.eval ctx bases).isTrue)
  | .conditional test x y => do
    if (← test.eval ctx bases).isTrue then x.eval ctx bases else y.eval ctx bases
  | .sequence x y => do
    let _ ← x.eval ctx bases
    y.eval ctx bases
  | .call (.symbol id) result _ cells args => do
    let values ← Node.evalAll ctx bases args
    return (← ctx.call id (ctx.image.parents bases id) (cells.zip values)).asResult result
  | .call function result _ cells args => do
    let values ← Node.evalAll ctx bases args
    let (id, parents) ← Image.functionAt (← Run.integer (function.eval ctx bases))
    return (← ctx.call id parents (cells.zip values)).asResult result
  | .operation op cells args => do
    let values ← Node.evalAll ctx bases args
    op.apply (bases.headD 0) cells values
  | .run body value => do
    match ← body.run ctx bases none with
    | .normal => value.eval ctx bases
    | f => throw (.flow f)

/-- The values of expressions, of which the last one is evaluated first. -/
def Node.evalAll (ctx : Context) (bases : List Nat) : List Node → Run (List Value)
  | [] => pure []
  | n :: ns => do
    let vs ← Node.evalAll ctx bases ns
    let v ← n.eval ctx bases
    return v :: vs

/-- Whether a test holds. One that is left out does. -/
def Node.evalTest (ctx : Context) (bases : List Nat) : Option Node → Run Bool
  | none => pure true
  | some n => do return (← n.eval ctx bases).isTrue

/-- Runs a statement from its start, or from a label inside of it. -/
def Stmt.run (ctx : Context) (bases : List Nat) : Stmt → Option Nat → Run Flow
  | .expression n, seek => do
    if seek.isSome then return .absent
    let _ ← n.eval ctx bases
    return .normal
  | .block ss, seek => do
    match ← Stmt.runAll ctx bases ss seek with
    | .jump label => Stmt.restart (fun l => Stmt.runAll ctx bases ss (some l)) Run.limit label
    | f => return f
  | .branch test yes no, none => do
    if (← test.eval ctx bases).isTrue then yes.run ctx bases none else no.run ctx bases none
  | .branch _ yes no, seek => do
    match ← yes.run ctx bases seek with
    | .absent => no.run ctx bases seek
    | f => return f
  | .loop isLate test step body, seek => do
    let first ← if seek.isSome then body.run ctx bases seek
      else if isLate then body.run ctx bases none
      else pure .next
    let isStarted := seek.isSome || isLate
    match first with
    | .normal | .next =>
      if isStarted then
        let _ ← Node.evalTest ctx bases step
      Run.repeated do
        if ← Node.evalTest ctx bases test then
          match ← Run.caught (body.run ctx bases none) with
          | .normal | .next =>
            let _ ← Node.evalTest ctx bases step
            return none
          | .leave => return some .normal
          | f => return some f
        else return some .normal
    | .leave => return .normal
    | f => return f
  | .select value ranges other body, seek => do
    let label ← match seek with
      | some l => pure (some l)
      | none => do
        let v ← Run.integer (value.eval ctx bases)
        pure (labelFor ranges other v)
    match label with
    | none => return .normal
    | some l =>
      match ← body.run ctx bases (some l) with
      | .leave => return .normal
      | f => return f
  | .mark label, seek => pure (match seek with
    | some l => if l = label then .normal else .absent
    | none => .normal)
  | .jump label, seek => pure (if seek.isSome then .absent else .jump label)
  | .jumpTo address, seek => do
    if seek.isSome then return .absent
    let a ← Run.integer (address.eval ctx bases)
    return .jump ((a - Memory.labelBase) / Memory.functionStep).toNat
  | .result value, seek => do
    if seek.isSome then return .absent
    return .result (← Node.evalResult ctx bases value)
  | .leave, seek => pure (if seek.isSome then .absent else .leave)
  | .next, seek => pure (if seek.isSome then .absent else .next)

/-- The value that a function gives, if there is one. -/
def Node.evalResult (ctx : Context) (bases : List Nat) : Option Node → Run Value
  | none => pure .nothing
  | some n => n.eval ctx bases

/-- Runs statements from the first one, or from a label inside of one of them. -/
def Stmt.runAll (ctx : Context) (bases : List Nat) : List Stmt → Option Nat → Run Flow
  | [], seek => pure (if seek.isSome then .absent else .normal)
  | s :: ss, seek => do
    match ← Run.caught (s.run ctx bases seek) with
    | .normal => Stmt.runAll ctx bases ss none
    | .absent => Stmt.runAll ctx bases ss seek
    | .jump label =>
      match ← Stmt.runAll ctx bases ss (some label) with
      | .absent => return .jump label
      | f => return f
    | f => return f
end

end LoopNest.Compiler
