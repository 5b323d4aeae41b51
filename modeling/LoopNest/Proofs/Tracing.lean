import LoopNest.IR.Interpret
import LoopNest.Proofs.Tree.Typing

/-!
# The accesses of the interpreter

The interpreter, with a record of the loads and stores that it performs and of the indices that it
fails to compute, up to where it stops (`Program.interpretTraced`). Leaving out the record gives the
interpreter back (`Program.result_interpretTraced`).
-/

namespace LoopNest

/-- What happens when the interpreter turns an index into an access. -/
inductive Event where
  /-- The element of a tensor at a subscript is loaded. -/
  | load (name : String) (sub : List Int)
  /-- The element of a tensor at a subscript is stored to. -/
  | store (name : String) (sub : List Int)
  /-- There is no such node, operand or index. -/
  | stuck
deriving DecidableEq, Repr

/-- A computation with the events of its run. They are kept when it fails. -/
structure Traced (β : Type) where
  result : Except Failure β
  events : List Event

namespace Traced

variable {β γ σ : Type}

instance : Monad Traced where
  pure b := ⟨.ok b, []⟩
  bind x f :=
    match x.result with
    | .error e => ⟨.error e, x.events⟩
    | .ok b => ⟨(f b).result, x.events ++ (f b).events⟩

/-- A computation without events. -/
def lift (x : Except Failure β) : Traced β := ⟨x, []⟩

/-- What has to be there to go on. -/
def demand : Option β → Traced β
  | none => ⟨.error .fault, [.stuck]⟩
  | some b => pure b

/-- An access, which fails when there is no such element. -/
def access (e : Event) (o : Option β) : Traced β := ⟨orFault o, [e]⟩

/-- Adds a context to failures. -/
def inContext (f : Diagnostic → Diagnostic) (x : Traced β) : Traced β :=
  ⟨LoopNest.inContext f x.result, x.events⟩

/-- Runs `f` on `start, start + 1, …`, `n` values in all, until one fails. -/
def loop (n : Nat) (start : Int) (f : Int → σ → Traced σ) (s : σ) : Traced σ :=
  match n with
  | 0 => pure s
  | n + 1 => f start s >>= loop n (start + 1) f

/-- One loop per axis, outermost first. -/
def forEachFrom (dims : List Int) (f : List Int → σ → Traced σ) (s : σ) : Traced σ :=
  match dims with
  | [] => f [] s
  | d :: dims => loop (max 1 d.toNat) 0 (fun i => forEachFrom dims fun idx => f (i :: idx)) s

/-- Runs `f` on every index of a shape in row-major order. -/
def forEach (dims : List Int) (f : List Int → σ → Traced σ) (s : σ) : Traced σ :=
  if dims.contains 0 then pure s else forEachFrom dims f s

/-! ## Results -/

theorem result_bind (x : Traced β) (f : β → Traced γ) :
    (x >>= f).result = x.result >>= fun b => (f b).result := by
  obtain ⟨result, events⟩ := x
  cases result with
  | error => rfl
  | ok => rfl

/-- The computation has the given result, or fails when there is none. -/
def Erases (x : Traced β) (o : Option β) : Prop := x.result = orFault o

namespace Erases

variable {x : Traced β} {o : Option β}

theorem pure (b : β) : Erases (pure b) (some b) := rfl

theorem access (e : Event) (o : Option β) : Erases (access e o) o := rfl

theorem demand (o : Option β) : Erases (demand o) o := by
  cases o with
  | none => rfl
  | some => rfl

theorem bind (h : Erases x o) {f : β → Traced γ} {g : β → Option γ}
    (hf : ∀ b, Erases (f b) (g b)) : Erases (x >>= f) (o >>= g) := by
  rw [Erases, result_bind, h]
  cases o with
  | none => rfl
  | some b => exact hf b

theorem loop {f : Int → σ → Traced σ} {g : Int → σ → Option σ} (h : ∀ i s, Erases (f i s) (g i s))
    (n : Nat) (start : Int) (s : σ) : Erases (loop n start f s) (LoopNest.loop n start g s) := by
  induction n generalizing start s with
  | zero => exact .pure s
  | succ n ih => exact (h start s).bind fun s => ih (start + 1) s

theorem forEach {f : List Int → σ → Traced σ} {g : List Int → σ → Option σ}
    (h : ∀ idx s, Erases (f idx s) (g idx s)) (dims : List Int) (s : σ) :
    Erases (forEach dims f s) (LoopNest.forEach dims g s) := by
  have hfrom : ∀ s, Erases (forEachFrom dims f s) (LoopNest.forEachFrom dims g s) := by
    induction dims generalizing f g with
    | nil => exact h []
    | cons d dims ih => exact .loop (fun i => ih fun idx => h (i :: idx)) _ 0
  rw [Traced.forEach, LoopNest.forEach]
  split
  · exact .pure s
  · exact hfrom s

end Erases

end Traced

open Traced (demand access)

variable {α : Type} [Scalar α]

/-! ## Expressions -/

/-- Loads the element that an identifier reads. -/
def loadTraced (cells : Cells α) (n : Node) (idx : List Int) : Traced α := do
  let sub ← demand (n.subscript id idx)
  access (.load n.name sub) (cells n.name sub)

/-- Stores an element through an identifier. -/
def storeTraced (mem : Memory α) (n : Node) (idx : List Int) (v : α) : Traced (Memory α) := do
  let sub ← demand (n.subscript id idx)
  access (.store n.name sub) (mem.change? n.name (·.set? sub v))

namespace Node

/-- The product of the operands of a contraction at given result and contracted indices. -/
def termTraced (n : Node) (operands : List Tree) (values : List (List Int → Traced α))
    (result contracted : List Int) : Traced α := do
  let ops ← demand (n.operandIndices (operands.map Tree.rank?) result contracted)
  let x ← (← demand values[0]?) (← demand ops[0]?)
  let y ← (← demand values[1]?) (← demand ops[1]?)
  return x * y

/-- The value of a node at an index, given the values of its operands. -/
def evalTraced (n : Node) (cells : Cells α) (operands : List Tree)
    (values : List (List Int → Traced α)) (idx : List Int) : Traced α :=
  match n.kind with
  | .identifier => loadTraced cells n idx
  | .constant => pure (Scalar.literal n.value)
  | .contraction => do
    let extents ← demand (n.contractedExtents operands)
    Traced.forEach extents
      (fun k sum => do return sum + (← n.termTraced operands values idx k)) 0
  | .stack =>
    match idx with
    | [] => demand none
    | i :: idx => do (← demand (at? values i)) idx
  | .transposition => do (← demand values[0]?) (← demand (backward n.pairs idx))
  | kind => do
    let op ← demand kind.arith?
    let ops ← demand (n.operandIndices (operands.map Tree.rank?) idx [])
    let x ← (← demand values[0]?) (← demand ops[0]?)
    let y ← (← demand values[1]?) (← demand ops[1]?)
    return op.eval x y

end Node

namespace Tree

mutual
/-- The value of an expression at an index of its result. -/
def evalTraced (cells : Cells α) : Tree → List Int → Traced α
  | .missing, _ => demand none
  | .node _ n ts, idx => n.evalTraced cells ts (evalAllTraced cells ts) idx

/-- The values of several expressions, each as a function of its index. -/
def evalAllTraced (cells : Cells α) : List Tree → List (List Int → Traced α)
  | [] => []
  | t :: ts => t.evalTraced cells :: evalAllTraced cells ts
end

end Tree

/-! ## Programs -/

namespace Program

/-- Computes and stores one element of an assignment. -/
def runElementTraced (dst : Node) (expr : Tree) (result : List Int) (mem : Memory α) :
    Traced (Memory α) :=
  match expr with
  | .missing => demand none
  | .node _ n ts =>
    if n.kind = .contraction then do
      let mem ← storeTraced mem dst result 0
      let extents ← demand (n.contractedExtents ts)
      Traced.forEach extents (fun k mem => do
        let term ← n.termTraced ts (Tree.evalAllTraced (cellsOf mem) ts) result k
        storeTraced mem dst result ((← loadTraced (cellsOf mem) dst result) + term)) mem
    else do storeTraced mem dst result (← expr.evalTraced (cellsOf mem) result)

/-- Runs an assignment, the shared loop being at `fused`. -/
def runAssignmentTraced (p : Program) (a : Assignment) (fused : Int) (mem : Memory α) :
    Traced (Memory α) := do
  let dst ← demand (p.dst? a)
  if !mem.contains dst.name then
    Traced.lift (throw (.error (.internalError s!"undeclared destination {dst.name}")))
  else
    let order ← demand (p.loopOrder a)
    let extents ← demand (order.mapM (dst.shape[·]?))
    let start := List.replicate dst.shape.rank 0
    let start ← demand <|
      match a.fuseAxis with
      | none => some start
      | some axis => setAt? start axis fused
    let expr := p.tree a.expr
    Traced.forEach extents
      (fun loops mem => runElementTraced dst expr (placeLoops order loops start) mem) mem

/-- Runs assignments from position `i` on. -/
def runAssignmentsTraced (p : Program) (fused : Int) (i : Nat) :
    List Assignment → Memory α → Traced (Memory α)
  | [], mem => pure mem
  | a :: rest, mem => do
    let mem ← Traced.inContext (.statement i (((p.dst? a).map (·.name)).getD ""))
      (p.runAssignmentTraced a fused mem)
    p.runAssignmentsTraced fused (i + 1) rest mem

/-- Runs all assignments once for each value of the shared loop, `n` values from `f` on. -/
def runFusedTraced (p : Program) (n : Nat) (f : Int) (mem : Memory α) : Traced (Memory α) :=
  match n with
  | 0 => pure mem
  | n + 1 => do p.runFusedTraced n (f + 1) (← p.runAssignmentsTraced f 0 p.assignments mem)

/-- Runs the assignments of a program on a memory. -/
def runTraced (p : Program) (mem : Memory α) : Traced (Memory α) :=
  match p.fusion with
  | none => p.runAssignmentsTraced (-1) 0 p.assignments mem
  | some extent => p.runFusedTraced extent.toNat 0 mem

/-- The interpreter, with its accesses. -/
def interpretTraced (p : Program) (inputs : Inputs α) : Traced (Memory α) := do
  p.runTraced (← Traced.lift (initialMemory inputs p.symbols.all {}))

end Program

/-! ## The interpreter without the record -/

section

open Traced (Erases result_bind)

variable {cells : Cells α} {n : Node}

omit [Scalar α] in
theorem loadTraced_erases (n : Node) (idx : List Int) :
    Erases (loadTraced cells n idx) (loadAt cells n idx) :=
  (Erases.demand _).bind fun _ => .access _ _

omit [Scalar α] in
theorem storeTraced_erases (mem : Memory α) (n : Node) (idx : List Int) (v : α) :
    Erases (storeTraced mem n idx v) (storeAt mem n idx v) :=
  (Erases.demand _).bind fun _ => .access _ _

/-- The values of operands with and without their accesses. -/
abbrev SameResults (values : List (List Int → Traced α)) (values' : List (List Int → Option α)) :
    Prop :=
  List.Forall₂ (fun v v' => ∀ idx, Erases (v idx) (v' idx)) values values'

namespace SameResults

variable {values : List (List Int → Traced α)} {values' : List (List Int → Option α)} {β : Type}

omit [Scalar α] in
/-- Some operand is demanded on either side. -/
theorem demand (h : SameResults values values') (i : Nat) {F : (List Int → Traced α) → Traced β}
    {G : (List Int → Option α) → Option β}
    (hFG : ∀ v v', (∀ idx, Erases (v idx) (v' idx)) → Erases (F v) (G v')) :
    Erases (demand values[i]? >>= F) (values'[i]? >>= G) := by
  induction h generalizing i with
  | nil => rfl
  | cons hv _ ih =>
    cases i with
    | zero => exact hFG _ _ hv
    | succ i => exact ih i

omit [Scalar α] in
/-- Some operand has the same value on either side. -/
theorem operand (h : SameResults values values') (i : Nat) (ops : List (List Int))
    {F : α → Traced β} {G : α → Option β} (hFG : ∀ x, Erases (F x) (G x)) :
    Erases (do F (← (← Traced.demand values[i]?) (← Traced.demand ops[i]?)))
      (do G (← (← values'[i]?) (← ops[i]?))) :=
  h.demand i fun _ _ hv => (Erases.demand _).bind fun idx => (hv idx).bind hFG

theorem term (h : SameResults values values') (n : Node) (operands : List Tree)
    (result contracted : List Int) : Erases (n.termTraced operands values result contracted)
      (n.termWith operands values' result contracted) :=
  (Erases.demand _).bind fun ops => h.operand 0 ops fun _ => h.operand 1 ops fun _ => .pure _

theorem eval (h : SameResults values values') (n : Node) (operands : List Tree) (idx : List Int) :
    Erases (n.evalTraced cells operands values idx) (n.evalWith cells operands values' idx) := by
  unfold Node.evalTraced Node.evalWith
  cases n.kind with
  | identifier => exact loadTraced_erases n idx
  | constant => exact .pure _
  | contraction =>
    exact (Erases.demand _).bind fun extents =>
      .forEach (fun k sum => (h.term n operands idx k).bind fun x => .pure (sum + x)) extents 0
  | stack =>
    cases idx with
    | nil => rfl
    | cons i idx =>
      simp only [at?]
      split
      · rfl
      · exact h.demand i.toNat fun _ _ hv => hv idx
  | transposition => exact h.demand 0 fun _ _ hv => (Erases.demand _).bind hv
  | _ => exact (Erases.demand _).bind fun op => (Erases.demand _).bind fun ops =>
      h.operand 0 ops fun _ => h.operand 1 ops fun _ => .pure _

end SameResults

namespace Tree

/-- The values of a tree, with and without the accesses. -/
theorem evalTraced_erases (t : Tree) (idx : List Int) :
    Erases (t.evalTraced cells idx) (t.eval cells idx) := by
  induction t using Tree.inductionOn generalizing idx with
  | missing => rfl
  | node id n ts ih =>
    have hts : SameResults (evalAllTraced cells ts) (evalAll cells ts) := by
      induction ts with
      | nil => exact .nil
      | cons t ts ihts =>
        exact .cons (ih t (.head _)) (ihts fun t ht => ih t (List.mem_cons_of_mem _ ht))
    exact hts.eval n ts idx

theorem evalAllTraced_erases (ts : List Tree) :
    SameResults (evalAllTraced cells ts) (evalAll cells ts) := by
  induction ts with
  | nil => exact .nil
  | cons t ts ih => exact .cons t.evalTraced_erases ih

end Tree

namespace Program

theorem runElementTraced_erases (dst : Node) (expr : Tree) (result : List Int) (mem : Memory α) :
    Erases (runElementTraced dst expr result mem) (runElement dst expr result mem) := by
  cases expr with
  | missing => rfl
  | node id n ts =>
    rw [runElementTraced, runElement]
    split
    · refine (storeTraced_erases mem dst result 0).bind fun mem => ?_
      refine (Erases.demand _).bind fun extents => .forEach (fun k mem => ?_) extents mem
      refine ((Tree.evalAllTraced_erases ts).term n ts result k).bind fun term => ?_
      exact (loadTraced_erases dst result).bind fun sum => storeTraced_erases mem dst result _
    · exact (Tree.evalTraced_erases _ result).bind fun v => storeTraced_erases mem dst result v

variable (p : Program)

theorem result_runAssignmentTraced (a : Assignment) (fused : Int) (mem : Memory α) :
    (p.runAssignmentTraced a fused mem).result = p.runAssignment a fused mem := by
  rw [runAssignmentTraced, runAssignment, result_bind, Erases.demand]
  refine bind_congr fun dst => ?_
  by_cases hdst : (!mem.contains dst.name) = true
  · rw [if_pos hdst, if_pos hdst]
    rfl
  · rw [if_neg hdst, if_neg hdst]
    refine (Erases.demand _).bind fun order => (Erases.demand _).bind fun extents => ?_
    have hloops : ∀ start, Erases
        (Traced.forEach extents (fun loops mem =>
          runElementTraced dst (p.tree a.expr) (placeLoops order loops start) mem) mem)
        (forEach extents (fun loops mem =>
          runElement dst (p.tree a.expr) (placeLoops order loops start) mem) mem) :=
      fun start => .forEach (fun loops mem => runElementTraced_erases dst _ _ mem) extents mem
    cases a.fuseAxis with
    | none => exact (Erases.demand _).bind hloops
    | some axis => exact (Erases.demand _).bind hloops

theorem result_runAssignmentsTraced (fused : Int) (i : Nat) (as : List Assignment)
    (mem : Memory α) :
    (p.runAssignmentsTraced fused i as mem).result = p.runAssignments fused i as mem := by
  induction as generalizing i mem with
  | nil => rfl
  | cons a as ih =>
    rw [runAssignmentsTraced, runAssignments, result_bind]
    show LoopNest.inContext _ _ >>= _ = _
    rw [result_runAssignmentTraced]
    exact bind_congr fun mem => ih (i + 1) mem

theorem result_runFusedTraced (n : Nat) (f : Int) (mem : Memory α) :
    (p.runFusedTraced n f mem).result = p.runFused n f mem := by
  induction n generalizing f mem with
  | zero => rfl
  | succ n ih =>
    rw [runFusedTraced, runFused, result_bind, result_runAssignmentsTraced]
    exact bind_congr fun mem => ih (f + 1) mem

/-- Leaving out the accesses gives the interpreter back. -/
theorem result_interpretTraced (inputs : Inputs α) :
    (p.interpretTraced inputs).result = p.interpret inputs := by
  rw [interpretTraced, interpret, result_bind]
  refine bind_congr fun mem => ?_
  rw [runTraced, run]
  cases p.fusion with
  | none => exact p.result_runAssignmentsTraced (-1) 0 p.assignments mem
  | some extent => exact p.result_runFusedTraced extent.toNat 0 mem

end Program

end

end LoopNest
