import LoopNest.Proofs.Code.Kernel
import LoopNest.Proofs.Lowering

/-!
# Correctness of lowering

The lowered program leaves in every declared tensor what whole-tensor evaluation leaves there
(`interpret_lower`), provided that an array can hold each tensor and each intermediate result. The
same holds between the first passes when no statement reads its own destination
(`interpret_stage`): before the copies of overwritten tensors are made, such a statement could read
what it has already written. The compiler reports no internal error on a valid program
(`compile_succeeds`).
-/

namespace LoopNest

open Typed (Expr)

variable {α : Type} [Scalar α] {p : Typed.Program}

/-- The shapes of arrays that can be held, with elements of eight bytes. -/
def Typed.holdable : ShapeClass where
  Mem sh := (∀ d ∈ sh, 0 < d) ∧ holdsElements 8 (Shape.count sh) = true
  pos h := h.1
  perm h hperm := ⟨fun d hd => h.1 d (hperm.mem_iff.mp hd), by
    rw [Shape.count_perm hperm]
    exact h.2⟩

/-- The shapes with fewer than `2^63` elements. -/
def Typed.countable : ShapeClass where
  Mem sh := (∀ d ∈ sh, 0 < d) ∧ Shape.count sh < 0x8000000000000000
  pos h := h.1
  perm h hperm := ⟨fun d hd => h.1 d (hperm.mem_iff.mp hd), by
    rw [Shape.count_perm hperm]
    exact h.2⟩

open Typed (holdable countable)

theorem holdable_bounded : holdable.Bounded := fun h => h.2

/-- The interpreter runs the lowered program, whole-tensor evaluation runs the typed one, and both
leave the same in every declared tensor. -/
theorem interpret_lower (hvalid : p.Valid) (hcoh : p.Coherent) (hsize : p.Within holdable) (fuse : Bool)
    {inputs : Inputs α} (hinputs : inputs.Fill p.decl?) :
    ∃ q m m', lower p fuse = .ok q ∧ q.interpret inputs = .ok m ∧ Typed.eval p inputs = .ok m' ∧
      ∀ d ∈ p.decls, ∃ t, m.get? d.name = some t ∧ m'.get? d.name = some t := by
  have hp := Typed.Program.Valid.checked hvalid hsize
  obtain ⟨r, q, cs, hlower, h⟩ := lower_spec hvalid hcoh hp fuse
  have hcount := h.stage.sound.countable holdable_bounded
  obtain ⟨m, m', hm, hm', hsame⟩ := h.stage.interpret_spec hvalid hp holdable_bounded h.symbols_eq
    (fun _ => h.run_spec hcount) hinputs
  exact ⟨r, m, m', hlower, hm, hm', hsame⟩

/-- `a = transpose(a, [(0,1)]) + outer(x, x)`, for a matrix `a` that is read and written. -/
def symmetrized : Typed.Program where
  name := "symmetrized"
  decls := [⟨"x", [2], .input⟩, ⟨"a", [2, 2], .inout⟩]
  stmts :=
    let a : Expr := .transpose (.ident "a" [2, 2]) [⟨0, 1⟩]
    let xx : Expr := .product (.ident "x" [2]) (.ident "x" [2])
    [{ dst := "a", expr := .binary .add a xx }]

theorem symmetrized_valid : symmetrized.Valid := rfl

theorem symmetrized_coherent : symmetrized.Coherent := by
  intro label e e' he
  simp [symmetrized, Expr.parts] at he

theorem symmetrized_within : symmetrized.Within holdable :=
  .of_shapes (fun _ hpos h => ⟨hpos, h⟩) (by decide) (by decide)

theorem symmetrized_fill : Inputs.Fill ([("x", [1, 2])] : Inputs Float) symmetrized.decl? :=
  .cons (Inputs.fill_nil _) rfl rfl rfl

/-- The program runs on an input that leaves out the matrix. -/
theorem interpret_lower_symmetrized : symmetrized.Valid ∧ symmetrized.Coherent ∧
    symmetrized.Within holdable ∧ Inputs.Fill ([("x", [1, 2])] : Inputs Float) symmetrized.decl? ∧
    ∃ q m m', lower symmetrized true = .ok q ∧ q.interpret [("x", [(1 : Float), 2])] = .ok m ∧
      Typed.eval symmetrized [("x", [(1 : Float), 2])] = .ok m' ∧
      ∀ d ∈ symmetrized.decls, ∃ t, m.get? d.name = some t ∧ m'.get? d.name = some t :=
  ⟨symmetrized_valid, symmetrized_coherent, symmetrized_within, symmetrized_fill,
    interpret_lower symmetrized_valid symmetrized_coherent symmetrized_within true symmetrized_fill⟩

/-! ## Tensors that no array can hold -/

/-- The outer product of four copies of `a`. -/
def fourfold : Expr :=
  .product (.product (.ident "a" [50]) (.ident "a" [50])) (.product (.ident "a" [50]) (.ident "a" [50]))

/-- A scalar out of 50 elements, through an outer product of eight copies of them. -/
def overflowing : Typed.Program where
  name := "p"
  decls := [⟨"a", [50], .input⟩, ⟨"b", [], .output⟩]
  stmts :=
    let t := .shared 0 fourfold
    let axes := [0, 1, 2, 3]
    [{ dst := "b", expr := .contract (.contract (.contract t [] t []) axes t axes) axes t axes }]

theorem overflowing_valid : overflowing.Valid := rfl

theorem overflowing_coherent : overflowing.Coherent := by
  intro label e e' he he'
  simp only [overflowing, fourfold, Expr.parts, List.flatMap_cons, List.flatMap_nil, List.append_nil,
    List.cons_append, List.nil_append, List.mem_cons, List.not_mem_nil, reduceCtorEq, false_or,
    or_false, or_self, Expr.shared.injEq] at he he'
  rw [he.2, he'.2]

theorem overflowing_within : overflowing.Within countable :=
  .of_shapes (fun _ hpos h => ⟨hpos, h⟩) (by decide) (by decide)

theorem overflowing_readsOthers : ∀ st ∈ overflowing.stmts, st.ReadsOthers := by
  intro st hst dims
  simp only [overflowing, List.mem_singleton] at hst
  subst hst
  simp [Expr.parts, fourfold]

theorem outerTensor_dims {x y t : Tensor α} (h : Typed.outerTensor x y = some t) :
    t.dims = x.dims ++ y.dims := by
  rw [Typed.outerTensor, Typed.fillTensor, Option.ite_none_right_eq_some] at h
  rw [← Option.some.inj h.2]

/-- An outer product of eight copies of 50 elements has no value. -/
theorem eval_fourfold_square {mem : Memory α} (hmem : ∃ t, mem.get? "a" = some t ∧ t.dims = [50]) :
    (Expr.contract (.shared 0 fourfold) [] (.shared 0 fourfold) []).eval mem = none := by
  obtain ⟨a, ha, hdims⟩ := hmem
  have hfour : ∀ t, fourfold.eval mem = some t → t.dims = [50, 50, 50, 50] := by
    intro t ht
    simp only [fourfold, Expr.eval, ha, Option.bind_eq_bind, Option.bind_some,
      Option.bind_eq_some_iff] at ht
    obtain ⟨x, hx, y, hy, ht⟩ := ht
    rw [outerTensor_dims ht, outerTensor_dims hx, outerTensor_dims hy, hdims]
    rfl
  simp only [Expr.eval, Option.bind_eq_bind, Option.bind_eq_none_iff]
  intro t ht u hu
  rw [Typed.contractTensor, hfour t ht, hfour u hu]
  rfl

/-- Evaluation fails on a program with a result that no array can hold. -/
theorem eval_overflowing : Typed.eval overflowing ([] : Inputs α) = .error .fault := by
  have haccepts : ∀ d ∈ overflowing.decls, d.Accepts ([] : Inputs α) := by
    simp only [overflowing, List.mem_cons, List.not_mem_nil, or_false]
    rintro d (rfl | rfl) <;> exact ⟨by decide, nofun, nofun⟩
  obtain ⟨mem, hinit, hget, -⟩ := initialMemory_spec (by decide) haccepts {}
  have heval : Typed.evalStmts mem overflowing.stmts = none := by
    simp only [overflowing, Typed.evalStmts, Typed.Stmt.eval]
    rw [Expr.eval, Expr.eval, eval_fourfold_square ⟨_, hget _ (.head _), rfl⟩]
    rfl
  rw [Typed.eval, show Typed.validate overflowing = .ok () from overflowing_valid,
    Typed.initialMemory_eq haccepts, hinit]
  show orFault (Typed.evalStmts mem overflowing.stmts) = _
  rw [heval]
  rfl

/-- Fewer than `2^63` elements are not few enough for the evaluators to succeed. -/
theorem lower_overflowing_faults :
    ¬ ∀ (p : Typed.Program) (fuse : Bool) (inputs : Inputs Float), p.Valid → p.Coherent →
      p.Within countable → inputs.Fill p.decl? →
        ∃ q m m', lower p fuse = .ok q ∧ q.interpret inputs = .ok m ∧
          Typed.eval p inputs = .ok m' ∧
          ∀ d ∈ p.decls, ∃ t, m.get? d.name = some t ∧ m'.get? d.name = some t := by
  intro h
  obtain ⟨_, _, m', -, -, heval, -⟩ := h overflowing false [] overflowing_valid overflowing_coherent
    overflowing_within (Inputs.fill_nil _)
  rw [eval_overflowing] at heval
  cases heval

/-! ## The first stages -/

/-- When no statement reads its own destination, the interpreter also runs what was built, what is
lifted, and what is left when the stacks are eliminated. -/
theorem interpret_stage (hvalid : p.Valid) (hcoh : p.Coherent) (hsize : p.Within holdable)
    (hothers : ∀ st ∈ p.stmts, st.ReadsOthers) {inputs : Inputs α} (hinputs : inputs.Fill p.decl?)
    {n : Nat} (hn : n ≤ 2) :
    ∃ q₀ q m m', build p = .ok q₀ ∧ runPasses q₀ ((passes false).take n) = .ok q ∧
      q.interpret inputs = .ok m ∧ Typed.eval p inputs = .ok m' ∧
      ∀ d ∈ p.decls, ∃ t, m.get? d.name = some t ∧ m'.get? d.name = some t := by
  have hp := Typed.Program.Valid.checked hvalid hsize
  obtain ⟨q₀, cs₀, hbuild, hstage₀, hdst, -, hothers₀⟩ := build_stage hvalid hcoh hp
  obtain ⟨q₁, cs₁, hrun₁, hshows₁, hstage₁, -, hrooted, hothers₁⟩ := hstage₀.lift_spec hdst
  obtain ⟨q₂, cs₂, hrun₂, hshows₂, href₂, -, hothers₂⟩ :=
    Pass.unstack_spec hshows₁ hstage₁.sound hrooted
  have hstage₂ := hstage₁.refine hshows₂ href₂.toRefines
  -- a program whose clauses read other tensors only is run as its clauses
  have hmeaning : ∀ {q cs}, Translates holdable p q cs → (∀ c ∈ cs, c.ReadsOthers) →
      ∃ m m', q.interpret inputs = .ok m ∧ Typed.eval p inputs = .ok m' ∧
        ∀ d ∈ p.decls, ∃ t, m.get? d.name = some t ∧ m'.get? d.name = some t :=
    fun hstage hreads => hstage.interpret_spec hvalid hp holdable_bounded rfl
      (fun _ => Program.run_spec hstage.laid hstage.fusion hstage.loops hstage.sound.fits
        (fun c hc => .apart (hreads c hc)) (hstage.sound.countable holdable_bounded)) hinputs
  have hreads₀ := hothers₀ hothers
  have hreads₁ := hothers₁ hreads₀
  match n with
  | 0 =>
    obtain ⟨m, m', h⟩ := hmeaning hstage₀ hreads₀
    exact ⟨q₀, q₀, m, m', hbuild, rfl, h⟩
  | 1 =>
    obtain ⟨m, m', h⟩ := hmeaning hstage₁ hreads₁
    exact ⟨q₀, q₁, m, m', hbuild, runPasses_cons hrun₁ _, h⟩
  | 2 =>
    obtain ⟨m, m', h⟩ := hmeaning hstage₂ (hothers₂ hreads₁)
    exact ⟨q₀, q₂, m, m', hbuild, (runPasses_cons hrun₁ _).trans (runPasses_cons hrun₂ _), h⟩

/-- `g = stack(contract(x, [0], y, [0]), contract(x, [0], x, [0]))`. -/
def gathered : Typed.Program where
  name := "gathered"
  decls := [⟨"x", [2], .input⟩, ⟨"y", [2], .input⟩, ⟨"g", [2], .output⟩]
  stmts :=
    let xy : Expr := .contract (.ident "x" [2]) [0] (.ident "y" [2]) [0]
    let xx : Expr := .contract (.ident "x" [2]) [0] (.ident "x" [2]) [0]
    [{ dst := "g", expr := .stack [xy, xx] }]

/-- A stack of contractions is interpreted in place, after lifting and as assignments to slices. -/
theorem interpret_stage_gathered :
    ∃ q₀ q m m', build gathered = .ok q₀ ∧ runPasses q₀ ((passes false).take 2) = .ok q ∧
      q.interpret [("x", [(1 : Float), 2])] = .ok m ∧
      Typed.eval gathered [("x", [(1 : Float), 2])] = .ok m' ∧
      ∀ d ∈ gathered.decls, ∃ t, m.get? d.name = some t ∧ m'.get? d.name = some t := by
  refine interpret_stage (p := gathered) rfl ?_ ?_ ?_ (.cons (Inputs.fill_nil _) rfl rfl rfl) (le_refl 2)
  · intro label e e' he
    simp [gathered, Expr.parts, Expr.partsAll] at he
  · exact .of_shapes (fun _ hpos h => ⟨hpos, h⟩) (by decide) (by decide)
  · intro st hst dims
    simp only [gathered, List.mem_singleton] at hst
    subst hst
    simp [Expr.parts, Expr.partsAll]

/-- The first stages need arrays that hold the tensors as well. -/
theorem stage_overflowing_faults :
    ¬ ∀ (p : Typed.Program) (inputs : Inputs Float), p.Valid → p.Coherent → p.Within countable →
      (∀ st ∈ p.stmts, st.ReadsOthers) → inputs.Fill p.decl? → ∀ n ≤ 2,
        ∃ q₀ q m m', build p = .ok q₀ ∧ runPasses q₀ ((passes false).take n) = .ok q ∧
          q.interpret inputs = .ok m ∧ Typed.eval p inputs = .ok m' ∧
          ∀ d ∈ p.decls, ∃ t, m.get? d.name = some t ∧ m'.get? d.name = some t := by
  intro h
  obtain ⟨_, _, _, m', -, -, -, heval, -⟩ := h overflowing [] overflowing_valid overflowing_coherent
    overflowing_within overflowing_readsOthers (Inputs.fill_nil _) 0 (Nat.zero_le 2)
  rw [eval_overflowing] at heval
  cases heval

/-! ## Compilation -/

/-- Building a valid program succeeds and its result passes the checks, the passes succeed with the
checks that they end with, and code is written. -/
theorem compile_succeeds (hvalid : p.Valid) (hcoh : p.Coherent) (fuse : Bool) {opts : EmitOptions}
    (hdtype : opts.dtype = .unset ∨ opts.dtype = .float32 ∨ opts.dtype = .float64) :
    ∃ q₀ q code, build p = .ok q₀ ∧ q₀.verify {} = some none ∧ runPasses q₀ (passes fuse) = .ok q ∧
      C.emit q opts = .ok code ∧ compile p fuse opts = .ok code := by
  have hp := Typed.Program.Valid.checked hvalid p.within_positive
  obtain ⟨q₀, cs₀, hbuild, hstage, -⟩ := build_stage hvalid hcoh hp
  obtain ⟨q, q', cs, hlower, h⟩ := lower_spec hvalid hcoh hp fuse
  have hverify : q₀.verify {} = some none :=
    Program.verify_eq_none hstage.laid hstage.tidy hstage.sound.fits hstage.sound.verified nofun rfl
      (fun h => by cases h) fun _ _ _ _ h => by cases h
  obtain ⟨body, w, hbody, -⟩ := h.program_spec (α := Float) (fun _ _ hs => hs) h.stage.sound.fits opts
  obtain ⟨code, -, hemit, -⟩ := C.exists_emit hbody (C.isSome_cType? hdtype)
  have hpasses : runPasses q₀ (passes fuse) = .ok q := by
    rw [lower, hbuild] at hlower
    exact hlower
  refine ⟨q₀, q, code, hbuild, hverify, hpasses, hemit, ?_⟩
  rw [compile, hlower]
  exact hemit

/-- Code is written for a matrix that is added to its transpose in place. -/
theorem compile_succeeds_symmetrized : symmetrized.Valid ∧ symmetrized.Coherent ∧
    ∃ q₀ q code, build symmetrized = .ok q₀ ∧ q₀.verify {} = some none ∧
      runPasses q₀ (passes true) = .ok q ∧ C.emit q { dtype := .float32 } = .ok code ∧
      compile symmetrized true { dtype := .float32 } = .ok code :=
  ⟨symmetrized_valid, symmetrized_coherent,
    compile_succeeds symmetrized_valid symmetrized_coherent true (.inr (.inl rfl))⟩

end LoopNest
