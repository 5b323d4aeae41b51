import LoopNest.Diagnostic
import LoopNest.Typed.Basic

/-!
# Validation of typed programs

A program is valid when its names are identifiers, each tensor is declared once with positive
axis lengths, every tensor that is not an input is assigned before it is read, and every statement
obeys the shape rules. The first violation is reported.
-/

namespace LoopNest.Typed

/-- Why an expression or a statement is not valid. -/
inductive StmtError where
  | undeclaredDestination (name : String)
  | assignsInput (name : String)
  | missingExpression
  | destinationSwap (p : Swap) (rank : Nat)
  | destinationShape (got : Shape) (dst : String) (want : Shape)
  | undeclared (name : String)
  | unassigned (role : Role) (name : String)
  | identShape (name : String) (dims declared : Shape)
  | notElementwise (op : NodeKind)
  | operandShapes (e : Expr) (x y : Shape)
  | notScalarOperator (op : NodeKind)
  | scalarShape (e : Expr) (s : Shape)
  | axisCounts (e : Expr) (x y : Nat)
  | axisOutside (e : Expr) (side : String) (axis : Int) (rank : Nat)
  | axisRepeated (e : Expr) (side : String) (axis : Int)
  | axisLengths (e : Expr) (xAxis xLength yAxis yLength : Int)
  | emptyStack
  | memberShape (e : Expr) (i : Nat) (s first : Shape)
  | swapOutside (e : Expr) (p : Swap) (rank : Nat)
deriving Inhabited

def StmtError.message : StmtError → String
  | .undeclaredDestination name => s!"undeclared destination {name}"
  | .assignsInput name => s!"cannot assign to input {name}"
  | .missingExpression => "missing expression"
  | .destinationSwap p rank => "invalid destination permutation: " ++ outsideMessage p rank
  | .destinationShape got dst want =>
    s!"cannot assign an expression of shape {got.render} to {dst} of shape {want.render}"
  | .undeclared name => s!"undeclared tensor {name}"
  | .unassigned role name => s!"{role.name} {name} read before being assigned"
  | .identShape name dims declared =>
    s!"{name} has shape {dims.render} but is declared with shape {declared.render}"
  | .notElementwise op => s!"{op.name} is not an elementwise operator"
  | .operandShapes e x y => s!"{e.render}: operands have shapes {x.render} and {y.render}"
  | .notScalarOperator op => s!"{op.name} is not a scalar operator"
  | .scalarShape e s => s!"{e.render}: scalar operand has shape {s.render}"
  | .axisCounts e x y => s!"{e.render}: {x} axes contracted with {y} axes"
  | .axisOutside e side axis rank =>
    s!"{e.render}: {side} operand: axis {axis} out of range for rank {rank}"
  | .axisRepeated e side axis => s!"{e.render}: {side} operand: axis {axis} contracted twice"
  | .axisLengths e xAxis xLength yAxis yLength =>
    s!"{e.render}: cannot contract axis {xAxis} of length {xLength} with axis {yAxis} of length {yLength}"
  | .emptyStack => "empty stack"
  | .memberShape e i s first =>
    s!"{e.render}: member {i} has shape {s.render} but member 0 has shape {first.render}"
  | .swapOutside e p rank => e.render ++ ": " ++ outsideMessage p rank

/-- Why a program is not valid. -/
inductive InvalidProgram where
  | programName (name : String)
  | tensorName (name : String)
  | declaredTwice (name : String)
  | reservedRole (name : String) (role : Role)
  | axisLength (name : String) (shape : Shape) (axis : Nat) (length : Int)
  | statement (index : Nat) (dst : String) (e : StmtError)
deriving Inhabited

def InvalidProgram.diagnostic : InvalidProgram → Diagnostic
  | .programName name => .cause ("invalid program name " ++ Text.quote name)
  | .tensorName name => .cause ("invalid tensor name " ++ Text.quote name)
  | .declaredTwice name => .cause s!"tensor {name} declared twice"
  | .reservedRole name role => .cause s!"tensor {name} cannot be declared as {role.name}"
  | .axisLength name shape axis length =>
    .context s!"invalid shape for tensor {name}" (.cause (shape.nonPositiveMessage axis length))
  | .statement index dst e => .statement index dst (.cause e.message)

/-- An ASCII letter or an underscore. -/
def isIdentStart (c : Char) : Bool := c.isAlpha || c == '_'

/-- A letter or an underscore, then letters, digits and underscores, all of them ASCII. -/
def isIdentifier (s : String) : Bool :=
  match s.toList with
  | [] => false
  | c :: cs => isIdentStart c && cs.all fun c => isIdentStart c || c.isDigit

/-- The tensors declared and those assigned so far. -/
structure Scope where
  decls : List Symbol
  written : List String := []
deriving Inhabited

def Scope.find? (s : Scope) (name : String) : Option Symbol := s.decls.find? (·.name == name)

/-- The first of the contracted axes that lies outside the rank or was listed before. -/
def checkAxes (e : Expr) (side : String) (rank : Nat) (before : List Int) :
    List Int → Except StmtError Unit
  | [] => .ok ()
  | ax :: rest =>
    if ax < 0 ∨ (rank : Int) ≤ ax then .error (.axisOutside e side ax rank)
    else if before.contains ax then .error (.axisRepeated e side ax)
    else checkAxes e side rank (ax :: before) rest

/-- The first pair of contracted axes of different lengths. -/
def checkLengths (e : Expr) (x y : Shape) : List Int → List Int → Except StmtError Unit
  | l :: ls, r :: rs =>
    let xd := (at? x l).getD 0
    let yd := (at? y r).getD 0
    if xd = yd then checkLengths e x y ls rs else .error (.axisLengths e l xd r yd)
  | _, _ => .ok ()

def Scope.ident (s : Scope) (name : String) (dims : Shape) : Except StmtError Shape :=
  match s.find? name with
  | none => .error (.undeclared name)
  | some decl =>
    if !decl.role.isInput && !s.written.contains name then .error (.unassigned decl.role name)
    else if dims ≠ decl.shape then .error (.identShape name dims decl.shape)
    else .ok decl.shape

def contractedShape (e : Expr) (x : Shape) (xAxes : List Int) (y : Shape) (yAxes : List Int) :
    Except StmtError Shape := do
  if xAxes.length ≠ yAxes.length then throw (.axisCounts e xAxes.length yAxes.length)
  checkAxes e "left" x.rank [] xAxes
  checkAxes e "right" y.rank [] yAxes
  checkLengths e x y xAxes yAxes
  return x.remove xAxes ++ y.remove yAxes

mutual
/-- The shape of an expression, or the first rule that it breaks. -/
def Scope.expr (s : Scope) : Expr → Except StmtError Shape
  | .missing => .error .missingExpression
  | .ident name dims => s.ident name dims
  | .const _ => .ok []
  | e@(.binary op x y) => do
    if !op.isElementwise then throw (.notElementwise op)
    let xs ← s.expr x
    let ys ← s.expr y
    if xs ≠ ys then throw (.operandShapes e xs ys)
    return xs
  | e@(.scale op scalar tensor) => do
    if !op.isScalar then throw (.notScalarOperator op)
    let ss ← s.expr scalar
    let ts ← s.expr tensor
    if ss.rank ≠ 0 then throw (.scalarShape e ss)
    return ts
  | .product x y => do
    let xs ← s.expr x
    let ys ← s.expr y
    return xs ++ ys
  | e@(.contract x xAxes y yAxes) => do
    let xs ← s.expr x
    let ys ← s.expr y
    contractedShape e xs xAxes ys yAxes
  | .stack [] => .error .emptyStack
  | e@(.stack (m :: ms)) => do
    let first ← s.expr m
    s.members e first 1 ms
    return ((ms.length + 1 : Nat) : Int) :: first
  | e@(.transpose x pairs) => do
    let xs ← s.expr x
    if let some p := firstOutside? pairs xs.rank then throw (.swapOutside e p xs.rank)
    return (xs.permute pairs).getD xs
  | .shared _ e => s.expr e

/-- The members of a stack from position `i` on have the shape of the first one. -/
def Scope.members (s : Scope) (e : Expr) (first : Shape) (i : Nat) :
    List Expr → Except StmtError Unit
  | [] => .ok ()
  | m :: ms => do
    let shape ← s.expr m
    if shape ≠ first then throw (.memberShape e i shape first)
    s.members e first (i + 1) ms
end

def Scope.stmt (s : Scope) (stmt : Stmt) : Except StmtError Unit := do
  let some decl := s.find? stmt.dst | throw (.undeclaredDestination stmt.dst)
  if decl.role = .input then throw (.assignsInput stmt.dst)
  if let .missing := stmt.expr then throw .missingExpression
  if let some p := firstOutside? stmt.perm decl.shape.rank then
    throw (.destinationSwap p decl.shape.rank)
  let got ← s.expr stmt.expr
  let want := (decl.shape.permute stmt.perm).getD decl.shape
  if got ≠ want then throw (.destinationShape got stmt.dst want)

/-- Checks a declaration against the names declared before it. -/
def checkDecl (before : List Symbol) (d : Symbol) : Except InvalidProgram Unit := do
  if !isIdentifier d.name then throw (.tensorName d.name)
  if before.any (·.name == d.name) then throw (.declaredTwice d.name)
  if d.role.isSynthesized then throw (.reservedRole d.name d.role)
  if let some (axis, length) := d.shape.nonPositive? then
    throw (.axisLength d.name d.shape axis length)

def checkDecls (before : List Symbol) : List Symbol → Except InvalidProgram Unit
  | [] => .ok ()
  | d :: ds => do
    checkDecl before d
    checkDecls (before ++ [d]) ds

/-- Checks statements from the position `i` on. -/
def checkStmts (s : Scope) (i : Nat) : List Stmt → Except InvalidProgram Unit
  | [] => .ok ()
  | stmt :: rest =>
    match s.stmt stmt with
    | .error e => .error (.statement i stmt.dst e)
    | .ok () => checkStmts { s with written := stmt.dst :: s.written } (i + 1) rest

def validate (p : Program) : Except InvalidProgram Unit := do
  if !isIdentifier p.name then throw (.programName p.name)
  checkDecls [] p.decls
  checkStmts { decls := p.decls } 0 p.stmts

def Program.Valid (p : Program) : Prop := validate p = .ok ()

end LoopNest.Typed
