import LoopNest.Compiler.Literal

/-!
# Conditions of directives

The value of the integer expression of a directive. A name stands for zero, and an operand that is
not needed for the value may also be a division by zero.
-/

namespace LoopNest.Compiler

/-- A value of 64 bits that may have no negative values. -/
structure Condition where
  value : Int
  isUnsigned : Bool := false
deriving DecidableEq, Repr, Inhabited

namespace Condition

/-- A value within its bits. -/
def wrapped (isUnsigned : Bool) (v : Int) : Condition :=
  ⟨if isUnsigned then Integer.unsignedLong.wrap v else Integer.long.wrap v, isUnsigned⟩

/-- One for a condition that holds and zero for one that does not. -/
def truth (b : Bool) : Condition := ⟨if b then 1 else 0, false⟩

def holds (x : Condition) : Bool := x.value ≠ 0

/-- How tightly an operator binds. -/
def level? : String → Option Nat
  | "," => some 1
  | "?" => some 2
  | "||" => some 3
  | "&&" => some 4
  | "|" => some 5
  | "^" => some 6
  | "&" => some 7
  | "==" | "!=" => some 8
  | "<" | ">" | "<=" | ">=" => some 9
  | "<<" | ">>" => some 10
  | "+" | "-" => some 11
  | "*" | "/" | "%" => some 12
  | _ => none

/-- A value with its bits moved to higher places, or to lower ones for a negative distance. -/
def shifted (x : Condition) (distance : Int) : Condition :=
  if 0 ≤ distance then
    wrapped x.isUnsigned (if 64 ≤ distance then 0 else x.value * Nat.pow 2 distance.toNat)
  else wrapped x.isUnsigned (x.value / Nat.pow 2 (min 64 distance.natAbs))

/-- The value of an operator on the bits of two values. -/
def bitwise (f : Nat → Nat → Nat) (isUnsigned : Bool) (x y : Int) : Condition :=
  let bits (v : Int) : Nat := (Integer.unsignedLong.wrap v).toNat
  wrapped isUnsigned (f (bits x) (bits y) : Nat)

/-- The value of an operator. A division by zero has none if it is needed. -/
def combine? (isNeeded : Bool) (m : String) (a b : Condition) : Option Condition :=
  let isUnsigned := a.isUnsigned || b.isUnsigned
  let x := (wrapped isUnsigned a.value).value
  let y := (wrapped isUnsigned b.value).value
  match m with
  | "," => some b
  | "||" => some (truth (a.holds || b.holds))
  | "&&" => some (truth (a.holds && b.holds))
  | "|" => some (bitwise Nat.lor isUnsigned x y)
  | "^" => some (bitwise Nat.xor isUnsigned x y)
  | "&" => some (bitwise Nat.land isUnsigned x y)
  | "==" => some (truth (x == y))
  | "!=" => some (truth (x != y))
  | "<" => some (truth (x < y))
  | ">" => some (truth (x > y))
  | "<=" => some (truth (x ≤ y))
  | ">=" => some (truth (x ≥ y))
  | "<<" => some (a.shifted b.value)
  | ">>" => some (a.shifted (-b.value))
  | "+" => some (wrapped isUnsigned (x + y))
  | "-" => some (wrapped isUnsigned (x - y))
  | "*" => some (wrapped isUnsigned (x * y))
  | "/" => if y ≠ 0 then some (wrapped isUnsigned (x.tdiv y)) else if isNeeded then none else some a
  | "%" => if y ≠ 0 then some (wrapped isUnsigned (x.tmod y)) else if isNeeded then none else some a
  | _ => none

def needsRight (m : String) (x : Condition) : Bool :=
  match m with
  | "||" => !x.holds
  | "&&" => x.holds
  | _ => true

mutual
def operand (fuel : Nat) (isNeeded : Bool) (ts : List Token) : Option (Condition × List Token) :=
  match fuel, ts with
  | 0, _ => none
  | _, .number s :: ts => (Literal.whole? s).map fun w =>
    (wrapped (w.isUnsigned || !Integer.long.holds w.value) w.value, ts)
  | _, .character encoding s :: ts => (Literal.character? encoding s).map fun (v, _) => (⟨v, false⟩, ts)
  | _, .word _ :: ts => some (⟨0, false⟩, ts)
  | fuel + 1, .mark "!" :: ts => (operand fuel isNeeded ts).map fun (x, ts) => (truth !x.holds, ts)
  | fuel + 1, .mark "-" :: ts =>
    (operand fuel isNeeded ts).map fun (x, ts) => (wrapped x.isUnsigned (-x.value), ts)
  | fuel + 1, .mark "~" :: ts =>
    (operand fuel isNeeded ts).map fun (x, ts) => (wrapped x.isUnsigned (-x.value - 1), ts)
  | fuel + 1, .mark "+" :: ts => operand fuel isNeeded ts
  | fuel + 1, .mark "(" :: ts =>
    match operand fuel isNeeded ts with
    | none => none
    | some (x, ts) =>
      match chain fuel 1 isNeeded x ts with
      | some (x, .mark ")" :: ts) => some (x, ts)
      | _ => none
  | _, _ => none

/-- The value of an operand with the operators after it that bind at least as tightly as given. -/
def chain (fuel : Nat) (least : Nat) (isNeeded : Bool) (x : Condition) (ts : List Token) :
    Option (Condition × List Token) :=
  match fuel, ts with
  | 0, _ => none
  | fuel + 1, .mark m :: rest =>
    match level? m with
    | none => some (x, ts)
    | some level =>
      if level < least then some (x, ts)
      else if m = "?" then
        match operand fuel (isNeeded && x.holds) rest with
        | none => none
        | some (y, rest) =>
          match chain fuel 1 (isNeeded && x.holds) y rest with
          | some (y, .mark ":" :: rest) =>
            match operand fuel (isNeeded && !x.holds) rest with
            | none => none
            | some (z, rest) =>
              match chain fuel level (isNeeded && !x.holds) z rest with
              | none => none
              | some (z, rest) =>
                let isUnsigned := y.isUnsigned || z.isUnsigned
                chain fuel least isNeeded
                  (wrapped isUnsigned (if x.holds then y.value else z.value)) rest
          | _ => none
      else
        let isRightNeeded := isNeeded && needsRight m x
        match operand fuel isRightNeeded rest with
        | none => none
        | some (y, rest) =>
          match chain fuel (level + 1) isRightNeeded y rest with
          | none => none
          | some (y, rest) =>
            match combine? isNeeded m x y with
            | none => none
            | some z => chain fuel least isNeeded z rest
  | _, ts => some (x, ts)
end

/-- The value of a whole line. -/
def ofTokens? (ts : List Token) : Option Condition := do
  let fuel := 4 * ts.length + 4
  let (x, rest) ← operand fuel true ts
  match ← chain fuel 1 true x rest with
  | (x, []) => some x
  | _ => none

end Condition

end LoopNest.Compiler
