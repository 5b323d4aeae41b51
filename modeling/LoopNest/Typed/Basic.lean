import LoopNest.IR.Kind
import LoopNest.Symbol
import LoopNest.Text.Decimal

/-!
# Typed tensor programs

A typed program declares its tensors and assigns an expression to some of them, one statement
after the other. An expression knows the shape of its result. A `shared` expression carries a
label: all occurrences of a label are one and the same expression.
-/

namespace LoopNest.Typed

/-- An expression over declared tensors. -/
inductive Expr where
  /-- The absence of an expression. -/
  | missing
  /-- Reads a declared tensor, which is expected to have the given shape. -/
  | ident (name : String) (dims : Shape)
  /-- A scalar literal. -/
  | const (value : Float)
  /-- An elementwise operation. -/
  | binary (op : NodeKind) (x y : Expr)
  /-- Multiplies or divides a tensor by a scalar. -/
  | scale (op : NodeKind) (scalar tensor : Expr)
  | product (x y : Expr)
  /-- The sum over pairs of axes. -/
  | contract (x : Expr) (xAxes : List Int) (y : Expr) (yAxes : List Int)
  /-- Tensors of one shape along a new leading axis. -/
  | stack (members : List Expr)
  /-- A tensor with pairs of axes swapped. -/
  | transpose (x : Expr) (pairs : List Swap)
  /-- An expression that may occur at several places under one label. -/
  | shared (label : Nat) (e : Expr)
deriving Inhabited

/-- Assigns an expression to a declared tensor, whose axes are first swapped. -/
structure Stmt where
  dst : String
  perm : List Swap := []
  expr : Expr
deriving Inhabited

/-- Declarations and statements. -/
structure Program where
  name : String
  decls : List Symbol := []
  stmts : List Stmt := []
deriving Inhabited

def Program.decl? (p : Program) (name : String) : Option Symbol :=
  p.decls.find? (·.name == name)

namespace Expr

/-- The shape of the result. There is none for a missing expression, for a stack without members
and for a swap of axes that do not exist. -/
def shape : Expr → Option Shape
  | .missing => none
  | .ident _ dims => some dims
  | .const _ => some []
  | .binary _ x _ => x.shape
  | .scale _ _ tensor => tensor.shape
  | .product x y => do return (← x.shape) ++ (← y.shape)
  | .contract x xAxes y yAxes => do
    return (← x.shape).remove xAxes ++ (← y.shape).remove yAxes
  | .stack [] => none
  | .stack (m :: ms) => do return ((ms.length + 1 : Nat) : Int) :: (← m.shape)
  | .transpose x pairs => do (← x.shape).permute pairs
  | .shared _ e => e.shape

/-- Whether there is no expression. -/
def isMissing : Expr → Bool
  | .missing => true
  | .shared _ e => e.isMissing
  | _ => false

/-- The text of an expression inside another text. One without a text, because it is missing or a
member of a stack in it is missing, leaves a mark there. -/
def shown (e : Expr) (text : Option String) : String :=
  text.getD (if e.isMissing then "%!s(<nil>)" else
    "%!s(PANIC=String method: runtime error: invalid memory address or nil pointer dereference)")

mutual
/-- The text of an expression. A missing one has none, and neither has a stack with a member that
has none. -/
def text? : Expr → Option String
  | .missing => none
  | .ident name _ => some name
  | .const v => some (Decimal.render v)
  | .binary op x y =>
    some ("(" ++ x.shown x.text? ++ " " ++ op.operator ++ " " ++ y.shown y.text? ++ ")")
  | .scale op scalar tensor =>
    let s := scalar.shown scalar.text?
    let t := tensor.shown tensor.text?
    some (if op = .scalarDiv then "sdiv(" ++ t ++ ", " ++ s ++ ")" else "smul(" ++ s ++ ", " ++ t ++ ")")
  | .product x y => some ("outer(" ++ x.shown x.text? ++ ", " ++ y.shown y.text? ++ ")")
  | .contract x xAxes y yAxes =>
    some ("contract(" ++ x.shown x.text? ++ ", " ++ renderSpaced xAxes ++ ", " ++ y.shown y.text?
      ++ ", " ++ renderSpaced yAxes ++ ")")
  | .stack members => (texts? members).map fun ts => "stack(" ++ ", ".intercalate ts ++ ")"
  | .transpose x pairs => some ("transpose(" ++ x.shown x.text? ++ ", " ++ renderSwaps pairs ++ ")")
  | .shared _ e => e.text?

def texts? : List Expr → Option (List String)
  | [] => some []
  | e :: es => do return (← e.text?) :: (← texts? es)
end

/-- The text of an expression, or the mark in its place. -/
def render (e : Expr) : String := e.shown e.text?

end Expr

def Stmt.render (s : Stmt) : String :=
  s.dst ++ (if s.perm.isEmpty then "" else "^" ++ renderSwaps s.perm) ++ " = " ++ s.expr.render

/-- One line per declaration, then one per statement. -/
def Program.render (p : Program) : List String :=
  p.decls.map Symbol.render ++ p.stmts.map Stmt.render

end LoopNest.Typed
