import LoopNest.Index.Shape
import LoopNest.Scalar
import LoopNest.Text.Decimal

/-!
# Loop nests in C

The fragment of C that kernels are written in: counted loops, scalar temporaries, and stores to
elements of arrays that are addressed by Horner expressions of loop indices.
-/

namespace LoopNest.C

/-- An index in an address: a loop variable or a fixed position. -/
inductive Index where
  | loop (name : String)
  | fixed (k : Int)
deriving DecidableEq, Repr, Inhabited

def Index.render : Index → String
  | .loop name => name
  | .fixed k => toString k

/-- The position of an element in an array. -/
inductive Offset where
  | index (i : Index)
  /-- An index plus an extent times the position given by the other indices. -/
  | step (i : Index) (extent : Int) (inner : Offset)
deriving DecidableEq, Repr, Inhabited

def Offset.render : Offset → String
  | .index i => i.render
  | .step i extent inner => i.render ++ " + " ++ toString extent ++ "*(" ++ inner.render ++ ")"

structure Element where
  tensor : String
  offset : Offset
deriving DecidableEq, Repr, Inhabited

def arrayName (tensor : String) : String := "t_" ++ tensor

def Element.render (e : Element) : String := arrayName e.tensor ++ "[" ++ e.offset.render ++ "]"

/-- An expression for a scalar value. -/
inductive Expr where
  | literal (value : Float)
  | element (e : Element)
  | temp (n : Nat)
  | arith (op : ArithOp) (x y : Expr)
deriving Repr, Inhabited

/-- The digits of a finite number, which say that it is of type double. -/
def literalDigits (v : Float) : String :=
  let digits := Decimal.render v
  if digits.toList.any fun c => c == '.' || c == 'e' then digits else digits ++ ".0"

/-- The text of a literal, which has parentheses when it is negative. -/
def renderLiteral (v : Float) : String :=
  if v.isNaN then "(0.0/0.0)"
  else if v.isInf then (if v < 0 then "(-1.0/0.0)" else "(1.0/0.0)")
  else if v < 0 then "(" ++ literalDigits v ++ ")"
  else literalDigits v

def tempName (n : Nat) : String := s!"s{n}"

def Expr.render : Expr → String
  | .literal v => renderLiteral v
  | .element e => e.render
  | .temp n => tempName n
  | .arith op x y => "(" ++ x.render ++ " " ++ op.sign ++ " " ++ y.render ++ ")"

inductive Stmt where
  /-- Counts an index from zero up to an extent. -/
  | loop (index : String) (extent : Int) (body : List Stmt)
  | declare (temp : Nat) (value : Expr)
  | store (dst : Element) (value : Expr)
  /-- Stores zero. -/
  | clear (dst : Element)
  /-- Adds a product. -/
  | accumulate (dst : Element) (x y : Expr)
deriving Inhabited

/-- The blanks in front of a line. -/
def margin (depth : Nat) : String := "".pushn ' ' (2 * (depth + 1))

mutual
/-- The lines of a statement at a depth of nesting; `element` is the type of the elements. -/
def Stmt.render (element : String) (depth : Nat) : Stmt → List String
  | .loop index extent body =>
    (margin depth ++ "for (int " ++ index ++ " = 0; " ++ index ++ " < " ++ toString extent ++ "; "
        ++ index ++ "++) \x7b")
      :: Stmt.renderAll element (depth + 1) body ++ [margin depth ++ "\x7d"]
  | .declare temp value =>
    [margin depth ++ element ++ " " ++ tempName temp ++ " = " ++ value.render ++ ";"]
  | .store dst value => [margin depth ++ dst.render ++ " = " ++ value.render ++ ";"]
  | .clear dst => [margin depth ++ dst.render ++ " = 0;"]
  | .accumulate dst x y =>
    [margin depth ++ dst.render ++ " += " ++ x.render ++ " * " ++ y.render ++ ";"]

/-- The lines of several statements. -/
def Stmt.renderAll (element : String) (depth : Nat) : List Stmt → List String
  | [] => []
  | s :: ss => s.render element depth ++ Stmt.renderAll element depth ss
end

end LoopNest.C
