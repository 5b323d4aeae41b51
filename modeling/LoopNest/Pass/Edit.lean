import LoopNest.IR.Verify

/-!
# Edits

An edit changes a program step by step. When it fails, the program stays as the steps before the
failure left it.
-/

namespace LoopNest

/-- A computation that changes a program and may fail. -/
abbrev Edit := EStateM Failure Program

namespace Edit

/-- Reads something off the program; a fault when it is not there. -/
def query (f : Program → Option β) : Edit β := fun p =>
  match f p with
  | none => .error .fault p
  | some b => .ok b p

/-- Changes the program; a fault when the change is not possible. -/
def change (f : Program → Option Program) : Edit Unit := fun p =>
  match f p with
  | none => .error .fault p
  | some p => .ok () p

/-- Changes the program and gives a result. -/
def update (f : Program → Option (β × Program)) : Edit β := fun p =>
  match f p with
  | none => .error .fault p
  | some (b, p) => .ok b p

def fail (d : Diagnostic) : Edit β := fun p => .error (.error d) p

def node (id : NodeId) : Edit Node := query (·.node? id)

def assignment (i : Nat) : Edit Assignment := query (·.assignments[i]?)

def dst (a : Assignment) : Edit Node := query (·.dst? a)

def add (n : Node) : Edit NodeId := update fun p => some (p.add n)

def addIdent (name : String) (shape : Shape) : Edit NodeId :=
  update fun p => some (p.addIdent name shape)

/-- Adds an identifier with fixed indices and swaps. -/
def addView (name : String) (shape : Shape) (fixed : List Int) (perm : List Swap) :
    Edit NodeId :=
  update fun p => some (p.addView name shape fixed perm)

def addTransposition (x : NodeId) (pairs : List Swap) : Edit NodeId :=
  update (·.addTransposition x pairs)

/-- Declares a tensor under a fresh name. -/
def synthesize (root : String) (shape : Shape) : Edit Symbol :=
  update fun p => some (p.synthesize root shape)

def modifyNode (id : NodeId) (f : Node → Node) : Edit Unit :=
  change fun p => (p.node? id).map fun _ => p.modifyNode id f

/-- Puts a node at a slot of the assignment at a position. -/
def setSlot (i : Nat) (slot : Slot) (id : NodeId) : Edit Unit := change (·.setSlot? i slot id)

def setOperand (parent : NodeId) (index : Nat) (id : NodeId) : Edit Unit :=
  change (·.setSlot? 0 (.operand parent index) id)

/-- Fails with the error that a check finds in the program. -/
def check (f : Program → Option (Option Diagnostic)) : Edit Unit := do
  match ← query f with
  | none => return ()
  | some d => fail d

/-- Fails unless the invariants hold. -/
def verify (opts : VerifyOptions) : Edit Unit := check (·.verify opts)

/-- Puts what was being done around the error of an edit. -/
def within (f : Diagnostic → Diagnostic) (r : Edit β) : Edit β := fun p =>
  match r p with
  | .ok b p => .ok b p
  | .error e p => .error (e.map f) p

end Edit

end LoopNest
