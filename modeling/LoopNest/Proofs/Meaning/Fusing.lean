import LoopNest.Proofs.Fusion
import LoopNest.Proofs.Meaning

/-!
# Fusing the assignments of an accepted program

Binding all assignments of an accepted program to one outermost loop does not change what it
computes (`Pass.interpret_fuse`), also when assignments read their own destinations. The memories that
the program starts from bound the element counts (`Program.formed_of_initialMemory`), so no bound on
the extents is asked for. The lengths of the axes that are shared must not be negative: the loops of
an assignment run once over an axis of negative length, and the shared loop does not run at all.
-/

namespace LoopNest

/-! ## Starting memories -/

/-- A program starts with every tensor in place. Its element counts are those of arrays. -/
theorem Program.formed_of_initialMemory {α : Type} [Scalar α] {p : Program} (hkeyed : p.symbols.Keyed)
    {inputs : Inputs α} {mem : Memory α} (h : initialMemory inputs p.symbols.all {} = .ok mem) :
    mem.Formed p.find.shapes ∧
      ∀ name s, p.find name = some s → s.shape.size < 0x4000000000000000 := by
  have hall := accepts_of_initialMemory h
  have haccepts : ∀ {name : String} {s : Symbol}, p.find name = some s →
      s.name = name ∧ s ∈ p.symbols.all ∧ s.Accepts inputs := by
    intro name s hs
    obtain rfl := hkeyed.name_eq hs
    exact ⟨rfl, hkeyed.mem_all.mpr hs, hall s (hkeyed.mem_all.mpr hs)⟩
  obtain ⟨mem', hrun, hget, -⟩ := initialMemory_spec hkeyed.names_nodup hall {}
  cases h.symm.trans hrun
  refine ⟨fun name stored hS => ?_, fun name s hs => ?_⟩
  · rw [Symbols.shapes, Option.map_eq_some_iff] at hS
    obtain ⟨s, hs, rfl⟩ := hS
    obtain ⟨rfl, hmem, haccept⟩ := haccepts hs
    refine ⟨_, hget s hmem, rfl, ?_⟩
    have := haccept.size_start
    omega
  · have hold := (haccepts hs).2.2.holds
    simp only [holdsElements, Bool.and_eq_true, decide_eq_true_eq] at hold
    rw [arrayBytes] at hold
    omega

/-! ## The pass -/

/-- No assignment of the program is bound to a shared loop. -/
structure Program.Unfused (p : Program) : Prop where
  fusion : p.fusion = none
  loops : ∀ a ∈ p.assignments, a.fuseAxis = none

namespace Pass

/-! ### What the checks find -/

section

variable {p : Program} {extent : Int} {axes : List Nat} {opts : VerifyOptions}

theorem tree_shared (id : NodeId) : (shared p extent axes).tree id = p.tree id :=
  Program.tree_congr (show (shared p extent axes).nodes = p.nodes from rfl) id

theorem place_shared (l : Ledger) (i : Nat) (pl : Slot × NodeId × Node) :
    l.place (shared p extent axes) opts i pl = l.place p opts i pl := by
  simp only [Ledger.place, Ledger.reach, Program.renderExpr, tree_shared]
  rfl

theorem places_shared (l : Ledger) (i : Nat) (pls : List (Slot × NodeId × Node)) :
    l.places (shared p extent axes) opts i pls = l.places p opts i pls := by
  induction pls generalizing l with
  | nil => rfl
  | cons pl pls ih => simp only [Ledger.places, place_shared, ih]

theorem assignment_shared (l : Ledger) (i : Nat) (a : Assignment) (axis : Option Nat) :
    l.assignment (shared p extent axes) opts i { a with fuseAxis := axis } = l.assignment p opts i a := by
  simp only [Ledger.assignment, Ledger.reach, Program.renderExpr, tree_shared, places_shared]
  rfl

theorem assignments_shared (l : Ledger) (i : Nat) {as : List Assignment} {ks : List Nat}
    (hlen : ks.length = as.length) :
    l.assignments (shared p extent axes) opts i
      ((as.zip ks).map fun (a, k) => { a with fuseAxis := some k }) = l.assignments p opts i as := by
  induction as generalizing l i ks with
  | nil => rfl
  | cons a as ih =>
    obtain _ | ⟨k, ks⟩ := ks
    · cases hlen
    · simp only [List.zip_cons_cons, List.map_cons, Ledger.assignments, assignment_shared,
        ih _ _ (Nat.succ.inj hlen)]

/-- Fusing keeps a program accepted: the checks do not look at the shared loop. -/
theorem accepted_fuse {q : Program} (h : p.Accepted) (hfuse : fuse p = some (true, q)) : q.Accepted := by
  obtain ⟨extent, axes, rfl, hlen⟩ := fuse_eq_shared hfuse
  have hnames : (shared p extent axes).assignments.mapM (fun a => (p.dst? a).map (·.name)) =
      p.assignments.mapM fun a => (p.dst? a).map (·.name) := by
    show ((p.assignments.zip axes).map _).mapM _ = _
    conv_rhs => rw [← List.map_fst_zip (Nat.le_of_eq hlen.symm), List.mapM_map]
    rw [List.mapM_map]
    rfl
  have hviol : (shared p extent axes).violations {} = some [] := by
    rw [← Program.violations_of_verify h.verified, Program.violations, Program.violations,
      ← assignments_shared {} 0 hlen, ← hnames]
    rfl
  refine ⟨by rw [Program.verify, hviol]; rfl, fun a ha n hn => ?_⟩
  obtain ⟨⟨a', k⟩, hz, rfl⟩ := List.mem_map.mp ha
  rw [tree_shared] at hn
  exact h.reads a' (List.of_mem_zip hz).1 n hn

end

/-! ### What the program computes -/

/-- Binding all assignments of an accepted program to one outermost loop does not change what it
computes, whatever the assignments read. -/
theorem interpret_fuse {p q : Program} (h : p.Accepted) (hkeyed : p.symbols.Keyed)
    (hstack : p.StackFree) (hunfused : p.Unfused)
    (hlengths : ∀ a ∈ p.assignments, ∀ dst ∈ p.dst? a, ∀ s ∈ p.find dst.name,
      ∀ d ∈ s.shape.head?, 0 ≤ d)
    (hfuse : fuse p = some (true, q)) {α : Type} [Scalar α] (inputs : Inputs α) :
    q.interpret inputs = p.interpret inputs := by
  have hclauses : ∀ {P : Clause → Prop}, (∀ a ∈ p.assignments, P (p.clause a)) →
      ∀ c ∈ p.clauses, P c := fun hP => List.forall_mem_map.mpr hP
  have hnonneg : ∀ c ∈ p.clauses, ∀ s, p.find c.name = some s → ∀ d ∈ s.shape.head?, 0 ≤ d :=
    hclauses fun a ha s hs => hlengths a ha _ (h.places ha).dst?_eq s hs
  rcases fuse_cases h.laid h.fits_all hnonneg with hnot | ⟨extent, axes, hshared, -, hextent, hleads⟩
  · rw [hfuse] at hnot
    cases hnot
  rw [hfuse] at hshared
  cases hshared
  show (Program.initialMemory inputs p.symbols.all {} >>= (shared p extent axes).run) =
    (Program.initialMemory inputs p.symbols.all {} >>= p.run)
  cases hstart : Program.initialMemory inputs p.symbols.all {} with
  | error e => rfl
  | ok mem =>
    obtain ⟨hmem, hsmall⟩ := Program.formed_of_initialMemory hkeyed hstart
    have hfusible : Fusible .all p p.clauses extent axes := {
      laid := h.laid
      fits := h.fits_all
      unstacked := hclauses hstack
      loops := hclauses hunfused.loops
      nonneg := hextent
      leads := hleads
      small := fun c _ s hs => hsmall c.name s hs }
    exact hfusible.run_shared hunfused.fusion hmem

/-- `y = y + x; w = contract(y, [1], x, [1])` -/
def summedGram : Program where
  name := "p"
  symbols := .ofList [⟨"x", [2, 3], .input⟩, ⟨"y", [2, 3], .inout⟩, ⟨"w", [2, 2], .output⟩]
  names := { taken := ["w", "y", "x"] }
  nodes := #[{ kind := .identifier, name := "y", shape := [2, 3] },
    { kind := .identifier, name := "x", shape := [2, 3] },
    { kind := .add, shape := [2, 3], operands := [0, 1] },
    { kind := .identifier, name := "y", shape := [2, 3] },
    { kind := .identifier, name := "y", shape := [2, 3] },
    { kind := .identifier, name := "x", shape := [2, 3] },
    { kind := .contraction, shape := [2, 2], operands := [4, 5], lhsAxes := [1], rhsAxes := [1] },
    { kind := .identifier, name := "w", shape := [2, 2] }]
  assignments := [{ dst := 3, expr := 2 }, { dst := 7, expr := 6 }]

theorem summedGram_accepted : summedGram.Accepted where
  verified := Program.verify_of_ledger rfl rfl (by decide) rfl rfl
  reads := by decide

/-- The sum in place and the product of its rows can be computed row by row. -/
theorem interpret_fuse_summedGram : summedGram.Accepted ∧ summedGram.symbols.Keyed ∧
    summedGram.StackFree ∧ summedGram.Unfused ∧
    (∀ a ∈ summedGram.assignments, ∀ dst ∈ summedGram.dst? a, ∀ s ∈ summedGram.find dst.name,
      ∀ d ∈ s.shape.head?, 0 ≤ d) ∧
    fuse summedGram = some (true, shared summedGram 2 [0, 0]) ∧
    ∀ inputs : Inputs Float,
      (shared summedGram 2 [0, 0]).interpret inputs = summedGram.interpret inputs :=
  have hkeyed : summedGram.symbols.Keyed := ⟨by decide, by decide⟩
  have hunfused : summedGram.Unfused := ⟨rfl, by decide⟩
  have hfuse : fuse summedGram = some (true, shared summedGram 2 [0, 0]) := rfl
  ⟨summedGram_accepted, hkeyed, by decide, hunfused, by decide, hfuse,
    interpret_fuse summedGram_accepted hkeyed (by decide) hunfused (by decide) hfuse⟩

/-- `y = x; z = x`, for tensors with axes of negative lengths -/
def negativeCopies : Program where
  name := "p"
  symbols := .ofList [⟨"x", [-2, -3], .input⟩, ⟨"y", [-2, -3], .output⟩, ⟨"z", [-2, -3], .output⟩]
  names := { taken := ["z", "y", "x"] }
  nodes := #[{ kind := .identifier, name := "x", shape := [-2, -3] },
    { kind := .identifier, name := "y", shape := [-2, -3] },
    { kind := .identifier, name := "x", shape := [-2, -3] },
    { kind := .identifier, name := "z", shape := [-2, -3] }]
  assignments := [{ dst := 1, expr := 0 }, { dst := 3, expr := 2 }]

theorem negativeCopies_accepted : negativeCopies.Accepted where
  verified := Program.verify_of_ledger rfl rfl (by decide) rfl rfl
  reads := by decide

/-- One element of `y` is copied by the loops of its assignment, and none of them in the shared loop. -/
theorem fuse_skips_negative : ¬ ∀ (p q : Program), p.Accepted → p.symbols.Keyed → p.StackFree →
    p.Unfused → fuse p = some (true, q) → ∀ {α : Type} [Scalar α] (inputs : Inputs α),
      q.interpret inputs = p.interpret inputs := by
  intro h
  let _ := Scalar.int
  have heq := h negativeCopies (shared negativeCopies (-2) [0, 0]) negativeCopies_accepted
    ⟨by decide, by decide⟩ (by decide) ⟨rfl, by decide⟩ rfl
    ([("x", [1, 2, 3, 4, 5, 6])] : Inputs Int)
  have hy := congrArg (fun r => (r.toOption.bind (·.get? "y")).map Tensor.flat) heq
  exact absurd hy (by decide)

end Pass

end LoopNest
