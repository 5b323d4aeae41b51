import LoopNest.C.Run
import LoopNest.Compiler.Literal

/-!
# Arithmetic of texts

The value of a text of C that is made of integers, names, `+`, `*` and brackets, where `*` binds more
tightly than `+` and all results are of type `int`. The tokens are those of a compiler.
-/

namespace LoopNest.C

open Compiler (Token)

/-- A sum of which a part has been read: the value of the terms that are complete, and the value of
the factors of the term after them. -/
structure OpenSum where
  terms : Option Int := none
  factors : Option Int := none
deriving DecidableEq, Repr, Inhabited

namespace OpenSum

/-- The value if the sum ends here. A term needs a factor. -/
def value? (s : OpenSum) : Option Int :=
  match s.terms with
  | none => s.factors
  | some x => do int? (x + (← s.factors))

def times? (s : OpenSum) (x : Int) : Option OpenSum :=
  match s.factors with
  | none => some { s with factors := some x }
  | some y => do return { s with factors := some (← int? (y * x)) }

def plus? (s : OpenSum) : Option OpenSum := do return { terms := some (← s.value?) }

end OpenSum

/-- The value of a literal of type `int`. -/
def literal? (s : String) : Option Int := do
  let w ← Compiler.Literal.whole? s
  if w.type = .int then some w.value else none

mutual
/-- The value of tokens of which the first one starts a factor. `outer` are the sums around the open
brackets, innermost first. -/
def factor? (scope : List (String × Int)) (outer : List OpenSum) (s : OpenSum) :
    List Token → Option Int
  | .number n :: ts => do afterFactor? scope outer (← s.times? (← literal? n)) ts
  | .word w :: ts => do afterFactor? scope outer (← s.times? (← scope.lookup w)) ts
  | .mark "(" :: ts => factor? scope (s :: outer) {} ts
  | _ => none

/-- The value of tokens of which the first one follows a factor. -/
def afterFactor? (scope : List (String × Int)) (outer : List OpenSum) (s : OpenSum) :
    List Token → Option Int
  | [] => if outer.isEmpty then s.value? else none
  | .mark "*" :: ts => factor? scope outer s ts
  | .mark "+" :: ts => do factor? scope outer (← s.plus?) ts
  | .mark ")" :: ts =>
    match outer with
    | [] => none
    | o :: outer => do afterFactor? scope outer (← o.times? (← s.value?)) ts
  | _ => none
end

def valueOf? (scope : List (String × Int)) (text : String) : Option Int :=
  factor? scope [] {} ((Token.ofLine [] 0 text.toList).map (·.token))

end LoopNest.C
