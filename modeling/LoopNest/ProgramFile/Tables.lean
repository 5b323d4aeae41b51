import LoopNest.Typed.Validate
import LoopNest.Tensor

/-!
# Program files as tables

A program file spells a program by tables: one for each declaration, one for each statement, and
nested ones for expressions. `FileTable.load` makes a valid program with values for its inputs out
of them.
-/

namespace LoopNest

/-- An expression. A name comes before a number, and a number before an operator. -/
structure ExprTable where
  ident : String := ""
  const : Option Float := none
  op : String := ""
  x : Option ExprTable := none
  y : Option ExprTable := none
  scalar : Option ExprTable := none
  xAxes : List Int := []
  yAxes : List Int := []
  members : List (Option ExprTable) := []
  pairs : List (List Int) := []
deriving Inhabited

structure DeclTable where
  name : String := ""
  shape : List Int := []
  kind : String := ""
deriving Inhabited

structure StmtTable where
  dst : String := ""
  perm : List (List Int) := []
  expr : Option ExprTable := none
deriving Inhabited

/-- A program with values for its inputs. -/
structure FileTable where
  name : String := ""
  decls : List DeclTable := []
  stmts : List StmtTable := []
  inputs : Inputs Float := []
deriving Inhabited

/-- A valid program with values for its inputs. -/
structure ProgramFile where
  program : Typed.Program
  inputs : Inputs Float
deriving Inhabited

/-- Why an expression or a permutation is refused. -/
inductive ExprTableError where
  | swapAxes (pair : List Int)
  | missing
  | undeclared (name : String)
  | unknownOperator (op : String)
deriving DecidableEq, Repr, Inhabited

def ExprTableError.message : ExprTableError → String
  | .swapAxes pair => "swap " ++ renderSpaced pair ++ " does not have two axes"
  | .missing => "missing expression"
  | .undeclared name => "undeclared tensor " ++ name
  | .unknownOperator op => "unknown operator " ++ Text.quote op

/-- Why a file is refused. -/
inductive FileError where
  | unknownKind (tensor kind : String)
  | statement (index : Nat) (dst : String) (e : ExprTableError)
  | invalid (e : Typed.InvalidProgram)
  | notAnInput (name : String)
  | valueCount (given : Nat) (input : Symbol)
deriving Inhabited

def FileError.diagnostic : FileError → Diagnostic
  | .unknownKind tensor kind => .cause s!"tensor {tensor}: unknown kind {Text.quote kind}"
  | .statement index dst e => .context s!"statement {index} ({dst})" (.cause e.message)
  | .invalid e => e.diagnostic
  | .notAnInput name => .cause s!"values given for {name} which is not an input"
  | .valueCount given input =>
    .cause s!"{given} values given for input {input.name} of shape {input.shape.render}: want {input.shape.size}"

def roleOfKind? : String → Option Role
  | "input" => some .input
  | "output" => some .output
  | "inout" => some .inout
  | "local" => some .local
  | _ => none

/-- The operation of an elementwise operator. -/
def binaryKind? : String → Option NodeKind
  | "add" => some .add
  | "sub" => some .sub
  | "mul" => some .mul
  | "div" => some .div
  | _ => none

def swapsOf (pairs : List (List Int)) : Except ExprTableError (List Swap) :=
  pairs.mapM fun
    | [a, b] => .ok ⟨a, b⟩
    | pair => .error (.swapAxes pair)

mutual
/-- The expression of a table, over the declared tensors. -/
def ExprTable.expr (decls : List Symbol) : ExprTable → Except ExprTableError Typed.Expr
  | ⟨ident, const, op, x, y, scalar, xAxes, yAxes, members, pairs⟩ =>
    if ident ≠ "" then
      match decls.find? (·.name == ident) with
      | some s => .ok (.ident s.name s.shape)
      | none => .error (.undeclared ident)
    else match const with
    | some v => .ok (.const v)
    | none =>
      match binaryKind? op with
      | some kind => do return .binary kind (← optionExpr decls x) (← optionExpr decls y)
      | none =>
        match op with
        | "smul" => do
          let tensor ← optionExpr decls x
          return .scale .scalarMul (← optionExpr decls scalar) tensor
        | "sdiv" => do
          let tensor ← optionExpr decls x
          return .scale .scalarDiv (← optionExpr decls scalar) tensor
        | "outer" => do return .product (← optionExpr decls x) (← optionExpr decls y)
        | "contract" => do
          return .contract (← optionExpr decls x) xAxes (← optionExpr decls y) yAxes
        | "stack" => do return .stack (← memberExprs decls members)
        | "transpose" => do
          let tensor ← optionExpr decls x
          return .transpose tensor (← swapsOf pairs)
        | op => .error (.unknownOperator op)

def optionExpr (decls : List Symbol) : Option ExprTable → Except ExprTableError Typed.Expr
  | none => .error .missing
  | some t => t.expr decls

/-- The expressions of several tables, each of which has to be there. -/
def memberExprs (decls : List Symbol) :
    List (Option ExprTable) → Except ExprTableError (List Typed.Expr)
  | [] => .ok []
  | t :: ts => do return (← optionExpr decls t) :: (← memberExprs decls ts)
end

namespace FileTable

/-- The name of a program that gives none. -/
def defaultName : String := "kernel"

def symbols (t : FileTable) : Except FileError (List Symbol) :=
  t.decls.mapM fun d =>
    match roleOfKind? d.kind with
    | some role => .ok ⟨d.name, d.shape, role⟩
    | none => .error (.unknownKind d.name d.kind)

def statement (decls : List Symbol) (t : StmtTable) : Except ExprTableError Typed.Stmt := do
  let perm ← swapsOf t.perm
  return { dst := t.dst, perm, expr := ← optionExpr decls t.expr }

/-- The statements, from a position on. -/
def statements (decls : List Symbol) : Nat → List StmtTable → Except FileError (List Typed.Stmt)
  | _, [] => .ok []
  | i, t :: ts =>
    match statement decls t with
    | .error e => .error (.statement i t.dst e)
    | .ok s => do return s :: (← statements decls (i + 1) ts)

/-- Checks that values belong to an input and fill its shape. -/
def checkInput (p : Typed.Program) (given : String × List Float) : Except FileError Unit :=
  match p.decl? given.1 with
  | none => .error (.notAnInput given.1)
  | some s =>
    if !s.role.isInput then .error (.notAnInput given.1)
    else if (given.2.length : Int) ≠ s.shape.size then .error (.valueCount given.2.length s)
    else .ok ()

/-- The program of the tables, and the values of its inputs. -/
def load (t : FileTable) : Except FileError ProgramFile := do
  let decls ← t.symbols
  let program : Typed.Program :=
    { name := if t.name.isEmpty then defaultName else t.name, decls, stmts := ← statements decls 0 t.stmts }
  match Typed.validate program with
  | .error e => .error (.invalid e)
  | .ok () => do
    t.inputs.forM (checkInput program)
    return { program, inputs := t.inputs }

end FileTable

end LoopNest
