import LoopNest.Compiler.Folding

/-!
# Uses of objects and functions

What the code of a function uses. Code that is never reached, because a condition is known or
because it follows a jump, uses nothing. Whether a variable or an object has one value only is found
by the uses of its address.
-/

namespace LoopNest.Compiler

/-- A use of an object, a function or a place of the frame. -/
inductive Use where
  /-- An object or a function is used; an object may only be read. -/
  | symbol (id : Nat) (isRead : Bool)
  /-- A place of the frame is given a value, which may be known. -/
  | stored (offset : Nat) (v : Option Constant)
  /-- The address of a place of the frame is used. -/
  | taken (offset : Nat)
deriving Inhabited

/-- What is known of code before it runs. -/
structure Knowledge where
  known : Known := {}
  isReplaced : Nat → Bool := fun _ => false
  /-- Calls of the function whose values are not used are left out. -/
  isDropped : Nat → Bool := fun _ => false
  /-- The function does not come back. -/
  isEnding : Nat → Bool := fun _ => false
  /-- The function gives powers. -/
  isPower : Nat → Bool := fun _ => false

namespace Knowledge

/-- Whether a power is computed without a call: its exponent is a small number, or its base is
one. -/
def isSimplePower (k : Knowledge) (id : Nat) (args : List Node) : Bool :=
  k.isPower id && match args with
    | [x, y] =>
      let constant (n : Node) : Option Float := match n.fold? k.known with
        | some (.fraction v) => some v
        | _ => none
      (constant y).any (fun v => v == 0 || v == 1 || v == 2 || v == -1) || (constant x).any (· == 1)
    | _ => false

/-- Whether an expression is a call of a function that does not come back. -/
def ends (k : Knowledge) : Node → Bool
  | .call (.symbol id) .. | .convert _ _ (.call (.symbol id) ..) => k.isEnding id
  | _ => false

end Knowledge

mutual
def Stmt.hasMark : Stmt → Bool
  | .mark _ => true
  | .block ss => Stmt.anyHasMark ss
  | .branch _ yes no => yes.hasMark || no.hasMark
  | .loop _ _ _ body | .select _ _ _ body => body.hasMark
  | _ => false

def Stmt.anyHasMark : List Stmt → Bool
  | [] => false
  | s :: ss => s.hasMark || Stmt.anyHasMark ss
end

mutual
/-- Whether a statement can leave the loop around it. -/
def Stmt.hasLeave : Stmt → Bool
  | .leave | .jump _ | .jumpTo _ => true
  | .block ss => Stmt.anyHasLeave ss
  | .branch _ yes no => yes.hasLeave || no.hasLeave
  | _ => false

/-- Whether one of some statements can leave the loop around it. -/
def Stmt.anyHasLeave : List Stmt → Bool
  | [] => false
  | s :: ss => s.hasLeave || Stmt.anyHasLeave ss
end

mutual
/-- The uses of an expression after some others. An expression whose value is not used only counts
for what it changes. -/
def Node.uses (k : Knowledge) (isUsed : Bool) (done : Array Use) : Node → Array Use
  | .integer _ | .fraction _ | .label _ => done
  | .frame up offset => if isUsed && up = 0 then done.push (.taken offset) else done
  | .symbol id => if isUsed then done.push (.symbol id false) else done
  | .load _ (.symbol id) => if isUsed then done.push (.symbol id true) else done
  | .load _ (.frame _ _) => done
  | .load _ address => address.uses k isUsed done
  | .store _ _ (.frame 0 offset) value =>
    (value.uses k true done).push (.stored offset (value.fold? k.known))
  | .store _ _ address value => address.uses k true (value.uses k true done)
  | .update _ _ _ _ (.frame 0 offset) operand => (operand.uses k true done).push (.stored offset none)
  | .update _ _ _ _ address operand => address.uses k true (operand.uses k true done)
  | .negate _ x | .complement _ x => x.uses k isUsed done
  | .convert _ target x => x.uses k (isUsed && target ≠ .nothing) done
  | .binary _ _ x y => y.uses k isUsed (x.uses k isUsed done)
  | .both x y =>
    match x.fold? k.known with
    | some c => if c.isTrue then y.uses k isUsed done else done
    | none => y.uses k isUsed (x.uses k true done)
  | .either x y =>
    match x.fold? k.known with
    | some c => if c.isTrue then done else y.uses k isUsed done
    | none => y.uses k isUsed (x.uses k true done)
  | .conditional test x y =>
    match test.fold? k.known with
    | some c => if c.isTrue then x.uses k isUsed done else y.uses k isUsed done
    | none => y.uses k isUsed (x.uses k isUsed (test.uses k true done))
  | .sequence x y => y.uses k isUsed (x.uses k false done)
  | .call (.symbol id) result n cells args =>
    let isKnown := (Node.call (.symbol id) result n cells args).fold? k.known |>.isSome
    let isMissing := isKnown || k.isReplaced id || k.isSimplePower id args
      || (!isUsed && k.isDropped id)
    Node.usesAll k (if isMissing then done else done.push (.symbol id false)) args
  | .call function _ _ _ args => Node.usesAll k (function.uses k true done) args
  | .operation _ _ args => Node.usesAll k done args
  | .run body value => value.uses k isUsed (body.uses k done).1

def Node.usesAll (k : Knowledge) (done : Array Use) : List Node → Array Use
  | [] => done
  | n :: ns => Node.usesAll k (n.uses k true done) ns

/-- The uses of an expression that may be missing. -/
def Node.usesMaybe (k : Knowledge) (isUsed : Bool) (done : Array Use) : Option Node → Array Use
  | none => done
  | some n => n.uses k isUsed done

/-- The uses of a statement, and whether the statement after it can be reached from it. -/
def Stmt.uses (k : Knowledge) (done : Array Use) : Stmt → Array Use × Bool
  | .expression n => (n.uses k false done, !k.ends n)
  | .block ss => Stmt.usesAll k done true ss
  | .branch test yes no =>
    match test.fold? k.known with
    | some c =>
      let (done, a) := if c.isTrue || yes.hasMark then yes.uses k done else (done, false)
      let (done, b) := if !c.isTrue || no.hasMark then no.uses k done else (done, false)
      (done, a || b)
    | none =>
      let (done, a) := yes.uses k (test.uses k true done)
      let (done, b) := no.uses k done
      (done, a || b)
  | .loop isLate test step body =>
    let value := test.bind (·.fold? k.known)
    let isEndless := (test.isNone || value.any (·.isTrue)) && !body.hasLeave
    if value.any (!·.isTrue) && !isLate && !body.hasMark then (done, true)
    else
      let (done, _) := body.uses k (Node.usesMaybe k true done test)
      (Node.usesMaybe k false done step, !isEndless)
  | .select value ranges other body =>
    let isSkipped : Bool := match value.fold? k.known with
      | some (.integer v) =>
        other.isNone && !ranges.any fun (low, high, _) => low ≤ v && v ≤ high
      | _ => false
    if isSkipped then (done, true) else ((body.uses k (value.uses k true done)).1, true)
  | .mark _ => (done, true)
  | .jump _ | .leave | .next => (done, false)
  | .jumpTo address => (address.uses k true done, false)
  | .result value => (Node.usesMaybe k true done value, false)

/-- The uses of statements, of which the first one is reached or not. -/
def Stmt.usesAll (k : Knowledge) (done : Array Use) (isOpen : Bool) : List Stmt → Array Use × Bool
  | [] => (done, isOpen)
  | s :: ss =>
    if isOpen || s.hasMark then
      let (done, isOpen) := s.uses k done
      Stmt.usesAll k done isOpen ss
    else Stmt.usesAll k done false ss
end

namespace Use

/-- The values of places of the frame that are given one value only, which is known, and whose
addresses are not used. -/
def slots (scalars : List Nat) (uses : Array Use) : List (Nat × Constant) :=
  scalars.filterMap fun offset =>
    let all := uses.toList.filterMap fun
      | .stored o v => if o = offset then some v else none
      | .taken o => if o = offset then some none else none
      | .symbol _ _ => none
    match all with
    | [some v] => some (offset, v)
    | _ => none

end Use

end LoopNest.Compiler
