import LoopNest.Diagnostic
import LoopNest.IR.Tree

/-!
# Invariants of assignment programs

`Program.violations` lists everything that is wrong with a program: destinations and nodes whose
shapes do not fit, reads before writes, writes to inputs, and synthesized tensors that are not
defined exactly once. Some checks are optional. `Program.verify` reports all violations as one
internal error.
-/

namespace LoopNest

structure VerifyOptions where
  /-- Every synthesized tensor is read exactly once. -/
  singleUse : Bool := false
  /-- No node is reached twice. -/
  noSharing : Bool := false
  /-- Kinds that must not occur. -/
  noKinds : List NodeKind := []
  /-- Kinds that may only occur at the root of an assignment. -/
  noNested : List NodeKind := []
deriving Inhabited

/-- A broken invariant. -/
inductive Violation where
  | destinationKind (kind : NodeKind)
  | destinationShape (dst expr : Shape)
  | unexpectedKind (kind : NodeKind)
  | nestedKind (kind parent : NodeKind)
  | writesInput (name : String)
  | sharedNode (id : NodeId) (text : String)
  | readBeforeWrite (name : String)
  | undeclared (name : String)
  | identRank (text : String) (fixed rank stored : Nat)
  | identSwap (text : String) (p : Swap) (rank : Nat)
  | fixedOutside (text : String) (index extent : Int)
  | identShape (text : String) (shape stored view : Shape)
  | operandCount (kind : NodeKind) (count wanted : Nat)
  | elementwiseShapes (kind : NodeKind) (x y : Shape)
  | scalarShape (kind : NodeKind) (shape : Shape)
  | axisCounts (lhs rhs : Nat)
  | axesOutside (l r : Int)
  | axisLengths (l r lhs rhs : Int)
  | emptyStack
  | memberShapes (first member : Shape)
  | swapOutside (p : Swap) (rank : Nat)
  | invalidKind (kind : NodeKind)
  | nodeShape (kind : NodeKind) (shape wanted : Shape)
  | definedTimes (destination : String) (times : Nat)
  | neverDefined (name : String)
  | readTimes (name : String) (times : Nat)
deriving Repr

/-- The text of a broken invariant. -/
def Violation.message : Violation → String
  | .destinationKind kind => s!"destination is a {kind.name}, not an identifier"
  | .destinationShape dst expr =>
    s!"destination shape {dst.render} does not match expression shape {expr.render}"
  | .unexpectedKind kind => s!"unexpected {kind.name} node"
  | .nestedKind kind parent => s!"{kind.name} node nested in a {parent.name} node"
  | .writesInput name => s!"{name} is an input and cannot be written"
  | .sharedNode id text => s!"node {id} " ++ Text.quote text ++ " is shared"
  | .readBeforeWrite name => s!"{name} read before being written"
  | .undeclared name => s!"undeclared tensor {name}"
  | .identRank text fixed rank stored =>
    text ++ s!" has {fixed} fixed indices and rank {rank} but its storage has rank {stored}"
  | .identSwap text p rank => text ++ ": " ++ outsideMessage p rank
  | .fixedOutside text index extent => text ++ s!": fixed index {index} out of range [0,{extent})"
  | .identShape text shape stored view =>
    text ++ s!" has shape {shape.render} but its storage {stored.render} gives {view.render}"
  | .operandCount kind count wanted => s!"{kind.name} node has {count} operands but want {wanted}"
  | .elementwiseShapes kind x y => s!"{kind.name} between shapes {x.render} and {y.render}"
  | .scalarShape kind shape => s!"{kind.name} scalar operand has shape {shape.render}"
  | .axisCounts lhs rhs => s!"contraction over {lhs} left axes and {rhs} right axes"
  | .axesOutside l r => s!"contracted axes ({l},{r}) out of range"
  | .axisLengths l r lhs rhs => s!"contracted axes ({l},{r}) have lengths {lhs} and {rhs}"
  | .emptyStack => "empty stack"
  | .memberShapes first member =>
    s!"stack members have shapes {first.render} and {member.render}"
  | .swapOutside p rank => outsideMessage p rank
  | .invalidKind kind => s!"invalid node kind {kind.name}"
  | .nodeShape kind shape wanted =>
    s!"{kind.name} node has shape {shape.render} but want {wanted.render}"
  | .definedTimes destination times =>
    s!"synthesized destination {destination} defined {times} times"
  | .neverDefined name => s!"synthesized tensor {name} is never defined"
  | .readTimes name times => s!"synthesized tensor {name} is read {times} times"

/-- What was met so far: nodes, definitions of synthesized tensors, writes, reads and violations,
each with the position of its assignment if it has one. -/
structure Ledger where
  seen : List NodeId := []
  defs : List String := []
  written : List String := []
  reads : List String := []
  found : List (Option Nat × Violation) := []

def Ledger.note (l : Ledger) (i : Option Nat) (vs : List Violation) : Ledger :=
  { l with found := l.found ++ vs.map (i, ·) }

/-- The number of operands that a kind has, when that is fixed. -/
def NodeKind.arity? : NodeKind → Option Nat
  | .identifier | .constant => some 0
  | .add | .sub | .mul | .div | .scalarMul | .scalarDiv | .product | .contraction => some 2
  | .transposition => some 1
  | .invalid | .stack | .unknown => none

/-- The pairs of contracted axes that are out of range or of different lengths, up to the first
pair that is out of range, and whether there is such a pair. -/
def checkContracted (x y : Shape) : List Int → List Int → List Violation × Bool
  | l :: ls, r :: rs =>
    match at? x l, at? y r with
    | some dx, some dy =>
      let (vs, stop) := checkContracted x y ls rs
      (if dx = dy then (vs, stop) else (.axisLengths l r dx dy :: vs, stop))
    | _, _ => ([.axesOutside l r], true)
  | _, _ => ([], false)

/-- The violation when a node does not have the shape that its operands give. -/
def Node.checkShape (n : Node) (wanted : Shape) : List Violation :=
  if n.shape = wanted then [] else [.nodeShape n.kind n.shape wanted]

/-- The violations of a node with the wanted number of operands, given their shapes. -/
def Node.checkOperands (n : Node) (ops : List Shape) : List Violation :=
  match n.kind, ops with
  | .identifier, _ => []
  | .constant, _ => n.checkShape []
  | .add, [x, y] | .sub, [x, y] | .mul, [x, y] | .div, [x, y] =>
    (if x = y then [] else [.elementwiseShapes n.kind x y]) ++ n.checkShape x
  | .scalarMul, [s, t] | .scalarDiv, [t, s] =>
    (if s.rank = 0 then [] else [.scalarShape n.kind s]) ++ n.checkShape t
  | .product, [x, y] => n.checkShape (x ++ y)
  | .contraction, [x, y] =>
    if n.lhsAxes.length ≠ n.rhsAxes.length then [.axisCounts n.lhsAxes.length n.rhsAxes.length]
    else
      let (vs, stop) := checkContracted x y n.lhsAxes n.rhsAxes
      if stop then vs
      else vs ++ n.checkShape (x.remove n.lhsAxes ++ y.remove n.rhsAxes)
  | .stack, [] => [.emptyStack]
  | .stack, first :: rest =>
    (rest.filter (· ≠ first)).map (.memberShapes first)
      ++ n.checkShape (((rest.length + 1 : Nat) : Int) :: first)
  | .transposition, [x] =>
    match firstOutside? n.pairs x.rank with
    | some p => [.swapOutside p x.rank]
    | none => n.checkShape ((x.permute n.pairs).getD x)
  | kind, _ => [.invalidKind kind]

/-- The violations of a node, given the shapes of its operands. -/
def Node.check (n : Node) (ops : List Shape) : List Violation :=
  match n.kind.arity? with
  | some wanted =>
    if ops.length = wanted then n.checkOperands ops
    else [.operandCount n.kind ops.length wanted]
  | none => n.checkOperands ops

/-- The fixed indices that lie outside the extents they select from. -/
def Node.checkFixed (n : Node) (logical : Shape) : List Violation :=
  (n.fixed.zip logical).filterMap fun (f, extent) =>
    if f < 0 ∨ extent ≤ f then some (.fixedOutside n.renderIdent f extent) else none

/-- The violations of an identifier as a view of its stored tensor. -/
def Program.checkIdent (p : Program) (n : Node) : List Violation :=
  match p.storedShape? n with
  | none => [.undeclared n.name]
  | some stored =>
    if n.fixed.length + n.shape.rank ≠ stored.rank then
      [.identRank n.renderIdent n.fixed.length n.shape.rank stored.rank]
    else
      match firstOutside? n.perm stored.rank with
      | some sw => [.identSwap n.renderIdent sw stored.rank]
      | none =>
        let logical := (forward n.perm stored).getD stored
        let view := logical.drop n.fixed.length
        n.checkFixed logical
          ++ (if view = n.shape then [] else [.identShape n.renderIdent n.shape stored view])

/-- The violation when a node is reached again. -/
def Ledger.reach (l : Ledger) (p : Program) (opts : VerifyOptions) (i : Nat) (id : NodeId) :
    Option Ledger :=
  if !opts.noSharing then some l
  else if l.seen.contains id then do
    let text ← p.renderExpr id
    return l.note i [.sharedNode id text]
  else some { l with seen := id :: l.seen }

def Ledger.read (l : Ledger) (p : Program) (i : Nat) (n : Node) : Ledger :=
  match p.symbols.find? n.name with
  | none => l
  | some s =>
    let l := { l with reads := n.name :: l.reads }
    if s.role.isInput || l.written.contains n.name then l
    else l.note i [.readBeforeWrite n.name]

def Ledger.place (l : Ledger) (p : Program) (opts : VerifyOptions) (i : Nat)
    (place : Slot × NodeId × Node) : Option Ledger := do
  let (slot, id, n) := place
  let l ← l.reach p opts i id
  let l := if opts.noKinds.contains n.kind then l.note i [.unexpectedKind n.kind] else l
  let l ←
    match slot with
    | .root => some l
    | .operand parent _ =>
      if opts.noNested.contains n.kind then
        (p.node? parent).map fun above => l.note i [.nestedKind n.kind above.kind]
      else some l
  let ops ← n.operands.mapM p.node?
  let l := l.note i (n.check (ops.map (·.shape)))
  return if n.kind = .identifier then l.read p i n else l

/-- Checks the places of an expression in order. -/
def Ledger.places (l : Ledger) (p : Program) (opts : VerifyOptions) (i : Nat) :
    List (Slot × NodeId × Node) → Option Ledger
  | [] => some l
  | place :: rest => do (← l.place p opts i place).places p opts i rest

def Ledger.assignment (l : Ledger) (p : Program) (opts : VerifyOptions) (i : Nat)
    (a : Assignment) : Option Ledger := do
  let dst ← p.dst? a
  if dst.kind ≠ .identifier then return l.note i [.destinationKind dst.kind]
  let l ← l.reach p opts i a.dst
  let l := l.note i (p.checkIdent dst)
  let root ← p.node? a.expr
  let l := if dst.shape = root.shape then l else l.note i [.destinationShape dst.shape root.shape]
  let l ← l.places p opts i (← (p.tree a.expr).walk)
  let l := { l with written := dst.name :: l.written }
  match p.symbols.find? dst.name with
  | none => return l
  | some s =>
    let l := if s.role.isSynthesized then
        { l with defs := { name := dst.name, fixed := dst.fixed : Node }.renderIdent :: l.defs }
      else l
    return if s.role = .input then l.note i [.writesInput dst.name] else l

/-- Checks assignments from position `i` on. -/
def Ledger.assignments (l : Ledger) (p : Program) (opts : VerifyOptions) (i : Nat) :
    List Assignment → Option Ledger
  | [] => some l
  | a :: rest => do (← l.assignment p opts i a).assignments p opts (i + 1) rest

/-- The destinations of synthesized tensors, in order, that are not defined once. -/
def Ledger.checkDefs (l : Ledger) : List Violation :=
  (l.defs.eraseDups.mergeSort fun a b => decide (a ≤ b)).filterMap fun d =>
    if l.defs.count d = 1 then none else some (.definedTimes d (l.defs.count d))

/-- The synthesized tensors that are not defined, or not read once. -/
def Ledger.checkSynthesized (l : Ledger) (p : Program) (opts : VerifyOptions)
    (defined : List String) : List Violation :=
  (p.symbols.all.filter (·.role.isSynthesized)).flatMap fun s =>
    (if defined.contains s.name then [] else [.neverDefined s.name])
      ++ (if opts.singleUse && l.reads.count s.name != 1 then
        [.readTimes s.name (l.reads.count s.name)] else [])

namespace Program

/-- Everything that is wrong with a program, each violation with the position of its assignment if
it has one. -/
def violations (p : Program) (opts : VerifyOptions) : Option (List (Option Nat × Violation)) := do
  let l ← Ledger.assignments {} p opts 0 p.assignments
  let l := l.note none l.checkDefs
  let defined ← p.assignments.mapM fun a => (p.dst? a).map (·.name)
  return (l.note none (l.checkSynthesized p opts defined)).found

/-- A violation as a diagnostic, with the text of its assignment. -/
def violationDiagnostic (p : Program) : Option Nat × Violation → Option Diagnostic
  | (none, v) => some (.cause v.message)
  | (some i, v) => do
    let text ← p.renderAssignment (← p.assignments[i]?)
    return .context (s!"assignment {i} " ++ Text.quote text) (.cause v.message)

/-- All violations as one internal error; there is none when the invariants hold. -/
def verify (p : Program) (opts : VerifyOptions) : Option (Option Diagnostic) := do
  let found ← p.violations opts
  let all ← found.mapM p.violationDiagnostic
  return (Diagnostic.combine all).map fun d =>
    .internal (.context s!"program {p.name} is invalid" d)

end Program

end LoopNest
