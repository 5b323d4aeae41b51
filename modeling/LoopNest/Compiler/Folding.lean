import LoopNest.Compiler.Mathematics

/-!
# Constant expressions

The values of expressions that are known before the code runs. An address is known as a distance
from an object that is always there.
-/

namespace LoopNest.Compiler

/-- What is known of the objects and functions of a source: the values of objects that are never
changed, and the names of functions. -/
structure Known where
  object : Nat → Int → Access → Option Constant := fun _ _ _ => none
  /-- What is at a place of the frame, if it is given one value only. -/
  slot : Nat → Option Constant := fun _ => none
  functionName : Nat → Option String := fun _ => none

namespace Constant

def isTrue : Constant → Bool
  | .integer v => v != 0
  | .fraction v => v != 0
  | .address _ _ | .label _ => true

/-- One for a constant that counts as true and zero for one that does not. -/
def truth (x : Constant) : Constant := .integer (truthValue x.isTrue)

/-- A constant of another cell. An address keeps its meaning only in cells of its own width. -/
def convert? (target : Cell) (x : Constant) : Option Constant :=
  match target, x with
  | .integer k, .integer v => some (.integer (k.wrap v))
  | .integer k, .fraction v => some (.integer (k.ofFraction v))
  | .fraction k, .integer v => some (.fraction (k.ofInteger v))
  | .fraction k, .fraction v => some (.fraction (k.round v))
  | .integer .bool, _ => some (.integer 1)
  | .integer k, x => if k.bytes = 8 then some x else none
  | _, _ => none

/-- The value of an operator on integers of a kind, some of which may be addresses. -/
def combine? (op : Operator) (c : Cell) (x y : Constant) : Option Constant :=
  match c, x, y with
  | .integer k, .integer x, .integer y => (op.onIntegers? k x y).map .integer
  | .fraction k, .fraction x, .fraction y =>
    match op.onFractions k x y with
    | .fraction v => some (.fraction v)
    | .integer v => some (.integer v)
    | _ => none
  | .integer k, .address s o, .integer v =>
    match op with
    | .add => some (.address s (o + Integer.long.wrap v))
    | .sub => some (.address s (o - Integer.long.wrap v))
    | .eq => if v = 0 then some (.integer 0) else none
    | .ne => if v = 0 then some (.integer 1) else none
    | _ => if k.bytes = 8 && op = .mul && v = 1 then some (.address s o) else none
  | .integer _, .integer v, .address s o =>
    match op with
    | .add => some (.address s (o + Integer.long.wrap v))
    | .eq => if v = 0 then some (.integer 0) else none
    | .ne => if v = 0 then some (.integer 1) else none
    | _ => none
  | .integer _, .address s o, .address t p =>
    if s ≠ t then none
    else match op with
      | .sub => some (.integer (o - p))
      | _ => if op.isComparison then (op.onIntegers? .long o p).map .integer else none
  | .integer _, .label a, .label b => if op = .sub && a = b then some (.integer 0) else none
  | _, _, _ => none

end Constant

mutual
/-- The value of an expression, if it is known. -/
def Node.fold? (known : Known) : Node → Option Constant
  | .integer v => some (.integer v)
  | .fraction v => some (.fraction v)
  | .symbol id => some (.address id 0)
  | .label id => some (.label id)
  | .load _ (.frame 0 offset) => known.slot offset
  | .load access address =>
    match address.fold? known with
    | some (.address s o) => known.object s o access
    | _ => none
  | .negate c x =>
    match c, x.fold? known with
    | .integer k, some (.integer v) => some (.integer (k.wrap (-v)))
    | .fraction _, some (.fraction v) => some (.fraction (-v))
    | _, _ => none
  | .complement k x =>
    match x.fold? known with
    | some (.integer v) => some (.integer (k.wrap (-v - 1)))
    | _ => none
  | .binary op c x y =>
    match x.fold? known, y.fold? known with
    | some x, some y => Constant.combine? op c x y
    | _, _ => none
  | .convert _ target x =>
    match x.fold? known with
    | some x => Constant.convert? target x
    | none => none
  | .both x y =>
    match x.fold? known with
    | some x => if x.isTrue then (y.fold? known).map Constant.truth else some (.integer 0)
    | none => none
  | .either x y =>
    match x.fold? known with
    | some x => if x.isTrue then some (.integer 1) else (y.fold? known).map Constant.truth
    | none => none
  | .conditional test x y =>
    match test.fold? known with
    | some t => if t.isTrue then x.fold? known else y.fold? known
    | none => none
  | .call (.symbol id) _ _ _ args =>
    match known.functionName id, Node.foldAll? known args with
    | some name, some args =>
      let numbers := args.filterMap fun
        | .fraction v => some v
        | _ => none
      match Mathematics.value? name numbers with
      | some v => if v.isFinite && numbers.length = args.length then some (.fraction v) else none
      | none => none
    | _, _ => none
  | _ => none

def Node.foldAll? (known : Known) : List Node → Option (List Constant)
  | [] => some []
  | n :: ns =>
    match n.fold? known, Node.foldAll? known ns with
    | some x, some xs => some (x :: xs)
    | _, _ => none
end

end LoopNest.Compiler
