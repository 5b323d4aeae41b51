import LoopNest.Proofs.Code.Statements
import LoopNest.Proofs.Lowering

/-!
# The code of programs

The code of a lowered program does to the arrays what its clauses do to their cells
(`Lowered.program_spec`): one assignment after the other, or all their slices at one value of the
shared loop after the other.
-/

namespace LoopNest

/-- The tensors that are written. -/
def Program.written (p : Program) : List String := p.assignments.filterMap fun a => (p.dst? a).map (·.name)

variable {α : Type} [Scalar α] {K : ShapeClass} {find : Symbols}

theorem Cells.Agree.runSlices {g : Int} {xs : List (Assignment × Clause)}
    (hfits : ∀ x ∈ xs, x.2.Fits K find) {σ τ : Cells α} (h : Cells.Agree find.shapes σ τ) :
    Cells.Agree find.shapes (LoopNest.runSlices g xs σ) (LoopNest.runSlices g xs τ) := by
  induction xs generalizing σ τ with
  | nil => exact h
  | cons x xs ih =>
    exact ih (fun y hy => hfits y (List.mem_cons_of_mem _ hy)) (h.stepOn K.sized (hfits x (.head _)))

namespace C

variable {p : Program} {extent : Int}

/-! ## Several assignments -/

/-- An assignment that code can be written for, with its clause. -/
structure Emittable (K : ShapeClass) (p : Program) (find : Symbols) (extent : Int)
    (x : Assignment × Clause) : Prop where
  places : p.Places x.1 x.2
  fits : x.2.Fits K find
  codable : Codable K p find.shapes x.2
  within : ∀ k ∈ x.1.fuseAxis, x.2.target.shape[k]? = some extent

/-- The code of assignments does to the arrays what their slices do to the cells. -/
theorem assignments_spec {xs : List (Assignment × Clause)} (hxs : ∀ x ∈ xs, Emittable K p find extent x)
    (opts : EmitOptions) {w : Writer} (hw : Outer w)
    (hshared : ∀ x ∈ xs, x.1.fuseAxis.isSome = true → w.isOpen Emit.sharedIndex = true) (i : Nat) :
    ∃ w', Emit.assignments p opts i (xs.map Prod.fst) w = .ok ((), w') ∧
      Advances (α := α) opts.layout find.shapes extent (fun g => runSlices g xs) w w' := by
  induction xs generalizing w i with
  | nil => exact ⟨w, rfl, .same rfl rfl rfl fun _ _ => rfl⟩
  | cons x xs ih =>
    have hx := hxs x (.head _)
    have hrest : ∀ y ∈ xs, Emittable K p find extent y := fun y hy => hxs y (List.mem_cons_of_mem _ hy)
    obtain ⟨w₁, hrun₁, h₁⟩ := assignment_spec (α := α) hx.codable hx.places hx.fits opts hw
      (hshared x (.head _)) hx.within
    obtain ⟨ss, hdraft, -⟩ := h₁.statements
    obtain ⟨w₂, hrun₂, h₂⟩ := ih hrest (h₁.outer hw) (fun y hy hsome => by
      rw [isOpen_writeAll hdraft]
      exact hshared y (List.mem_cons_of_mem _ hy) hsome) (i + 1)
    refine ⟨w₂, ?_, h₁.trans h₂ fun hagree => hagree.runSlices fun y hy => (hrest y hy).fits⟩
    rw [List.map_cons, Emit.assignments]
    show (inContext _ (Emit.assignment p opts x.1 w)).bind _ = _
    rw [hrun₁]
    exact hrun₂

/-! ## The shared loop -/

/-- Statements do to the cells of the arrays what a function does. -/
def Runs (layout : Layout) (S : Shapes) (body : List Stmt) (step : Cells α → Cells α) : Prop :=
  ∀ A : Arrays α, Addressable S → Holds S A → ∃ A', Stmt.runAll id {} A body = some A' ∧
    Holds S A' ∧ Cells.Agree S (cellsIn layout S A') (step (cellsIn layout S A))

theorem writeAll_outer (done ss : List Stmt) : Draft.writeAll ([], done) ss = ([], done ++ ss) := by
  induction ss generalizing done with
  | nil => rw [List.append_nil]; rfl
  | cons s ss ih =>
    rw [List.append_cons]
    exact ih (done ++ [s])

/-- Statements in the shared loop, if there is one. -/
def inShared (fusion : Option Int) (ss : List Stmt) : List Stmt :=
  match fusion with
  | none => ss
  | some extent => [.loop Emit.sharedIndex extent ss]

/-- Closing the shared loop leaves the statements that have been written in it. -/
theorem done_closeTo {fusion : Option Int} {w : Writer} {ss : List Stmt}
    (h : w.draft = (Writer.start fusion).draft.writeAll ss) : (w.closeTo 0).done = inShared fusion ss := by
  cases fusion with
  | none =>
    have houter : w.draft = ([], ss) := h.trans (writeAll_outer [] ss)
    have hframes : w.frames = [] := congrArg Prod.fst houter
    rw [Writer.closeTo, hframes]
    exact congrArg Prod.snd houter
  | some extent =>
    have hinner : w.draft = ([⟨Emit.sharedIndex, extent, ss⟩], []) :=
      h.trans (Draft.writeAll_enter ([], []) Emit.sharedIndex extent [] ss)
    have hframes : w.frames.length = 1 := congrArg (fun d : Draft => d.1.length) hinner
    refine congrArg Prod.snd (?_ : (w.closeTo 0).draft = ([], inShared (some extent) ss))
    rw [Writer.closeTo, hframes, Writer.draft_closeLoops, hinner]
    rfl

/-- All loops are closed behind the assignments. -/
theorem program_eq (p : Program) (opts : EmitOptions) : Emit.program p opts {} =
    (Emit.assignments p opts 0 p.assignments (Writer.start p.fusion)).map
      fun r => ((r.2.closeTo 0).done, r.2.closeTo 0) := by
  rw [Emit.program]
  cases p.fusion with
  | none =>
    show (Emit.assignments p opts 0 p.assignments (Writer.start none) >>= _) = _
    cases Emit.assignments p opts 0 p.assignments (Writer.start none) <;> rfl
  | some extent =>
    show (Emit.assignments p opts 0 p.assignments (Writer.start (some extent)) >>= _) = _
    cases Emit.assignments p opts 0 p.assignments (Writer.start (some extent)) <;> rfl

theorem program_run {opts : EmitOptions} {w : Writer}
    (h : Emit.assignments p opts 0 p.assignments (Writer.start p.fusion) = .ok ((), w)) :
    Emit.program p opts {} = .ok ((w.closeTo 0).done, w.closeTo 0) := by
  rw [program_eq, h]
  rfl

variable {opts : EmitOptions} {xs : List (Assignment × Clause)}

/-- A program without a shared loop. -/
theorem program_spec (hfusion : p.fusion = none) (hass : p.assignments = xs.map Prod.fst)
    (hxs : ∀ x ∈ xs, Emittable K p find 1 x) (hnone : ∀ x ∈ xs, x.1.fuseAxis = none) :
    ∃ body w, Emit.program p opts {} = .ok (body, w) ∧
      Runs (α := α) opts.layout find.shapes body (runSlices 0 xs) := by
  obtain ⟨w, hrun, hadvances⟩ := assignments_spec (α := α) hxs opts (outer_start none)
    (fun x hx hsome => by rw [hnone x hx] at hsome; cases hsome) 0
  obtain ⟨ss, hdraft, -, hss⟩ := hadvances.statements
  refine ⟨_, _, program_run (by rw [hass, hfusion]; exact hrun), fun A hS hholds => ?_⟩
  obtain ⟨f', A', hrun', -, hholds', hcells⟩ :=
    hss 0 {} A between_plain (Int.le_refl 0) Int.zero_lt_one hS hholds
  refine ⟨A', ?_, hholds', hcells⟩
  rw [runAll_eq, done_closeTo hdraft, inShared, hrun']
  rfl

/-- The iterations of the shared loop. -/
theorem loop_spec {layout : Layout} {ss : List Stmt} (hxs : ∀ x ∈ xs, x.2.Fits K find)
    (hiter : ∀ g (A : Arrays α), 0 ≤ g → g < extent → Holds find.shapes A →
      ∃ A', Stmt.runAll id { indices := [(Emit.sharedIndex, g)] } A ss = some A' ∧
        Holds find.shapes A' ∧ Cells.Agree find.shapes (cellsIn layout find.shapes A')
          (runSlices g xs (cellsIn layout find.shapes A)))
    {n : Nat} {g : Int} (lo : 0 ≤ g) (hi : g + n ≤ extent) {A : Arrays α} (hA : Holds find.shapes A)
    {σ : Cells α} (hcells : Cells.Agree find.shapes (cellsIn layout find.shapes A) σ) :
    ∃ A', loop n g (fun g A => Stmt.runAll id { indices := [(Emit.sharedIndex, g)] } A ss) A = some A' ∧
      Holds find.shapes A' ∧
      Cells.Agree find.shapes (cellsIn layout find.shapes A') (Pass.runLoop n g xs σ) := by
  induction n generalizing g A σ with
  | zero => exact ⟨A, rfl, hA, hcells⟩
  | succ n ih =>
    obtain ⟨A₁, hrun₁, hholds₁, hcells₁⟩ := hiter g A lo (by omega) hA
    obtain ⟨A₂, hrun₂, hholds₂, hcells₂⟩ := ih (g := g + 1) (by omega) (by omega) hholds₁
      (hcells₁.trans (hcells.runSlices hxs))
    refine ⟨A₂, ?_, hholds₂, hcells₂⟩
    rw [loop, hrun₁]
    exact hrun₂

/-- A program with a shared loop. -/
theorem program_spec_shared (hfusion : p.fusion = some extent) (hass : p.assignments = xs.map Prod.fst)
    (hxs : ∀ x ∈ xs, Emittable K p find extent x) (hpos : 0 < extent)
    (hextent : Addressable find.shapes → extent < 0x80000000) :
    ∃ body w, Emit.program p opts {} = .ok (body, w) ∧
      Runs (α := α) opts.layout find.shapes body (Pass.runLoop extent.toNat 0 xs) := by
  have hopen : (Writer.start (some extent)).isOpen Emit.sharedIndex = true := by
    rw [Writer.start, Writer.isOpen_openLoop, beq_self_eq_true, Bool.true_or]
  obtain ⟨w, hrun, hadvances⟩ := assignments_spec (α := α) hxs opts (outer_start (some extent))
    (fun _ _ _ => hopen) 0
  obtain ⟨ss, hdraft, -, hss⟩ := hadvances.statements
  refine ⟨_, _, program_run (by rw [hass, hfusion]; exact hrun), fun A hS hholds => ?_⟩
  rw [done_closeTo hdraft]
  obtain ⟨A', hloop, hholds', hcells⟩ := loop_spec (fun x hx => (hxs x hx).fits)
    (fun g A lo hi hA => by
      obtain ⟨f', A', hrun', -, hholds', hcells⟩ := hss g _ A (between_shared extent g) lo hi hS hA
      exact ⟨A', by rw [runAll_eq, hrun']; rfl, hholds', hcells⟩)
    (n := extent.toNat) (Int.le_refl 0) (by omega) hholds (.refl _)
  exact ⟨A', runAll_loop (int?_eq (by omega) (hextent hS)) hloop, hholds', hcells⟩

/-! ## The function -/

/-- Kernels can work with these element types. -/
theorem isSome_cType? {opts : EmitOptions}
    (h : opts.dtype = .unset ∨ opts.dtype = .float32 ∨ opts.dtype = .float64) :
    opts.element.cType?.isSome = true := by
  rcases h with hd | hd | hd <;> rw [EmitOptions.element, hd] <;> rfl

/-- Code is the text of a kernel function. Its arguments are the formal tensors, and its buffers are the
other tensors that are written. -/
structure Emits (p : Program) (opts : EmitOptions) (code : Code) (f : Function) : Prop where
  function : code.function = some f
  source : code.source = f.render
  funcName : code.funcName = f.name
  entry : code.entry = f.entry
  formals : code.formals = p.symbols.formals.map Formal.ofSymbol
  name : f.name = if opts.funcName.isEmpty then "tensorc_" ++ p.name else opts.funcName
  element : opts.element.cType? = some f.element
  params : f.params = p.symbols.formals.map (·.name)
  buffers : f.buffers =
    (p.symbols.buffers.filter fun s => p.written.contains s.name).map fun s => (s.name, s.shape.size)
  body : ∃ w, Emit.program p opts {} = .ok (f.body, w)

theorem emit_eq_ok {code : Code} (h : emit p opts = .ok code) : ∃ f, Emits p opts code f := by
  cases hf : emitFunction p opts with
  | error e =>
    rw [emit, hf] at h
    cases h
  | ok f =>
    rw [emit, hf] at h
    cases h
    rw [emitFunction] at hf
    split at hf
    · cases hf
    · rename_i element helement
      rw [C.function] at hf
      cases hbody : Emit.program p opts {} with
      | error e =>
        rw [hbody] at hf
        cases hf
      | ok r =>
        rw [hbody] at hf
        cases hf
        exact ⟨_, rfl, rfl, rfl, rfl, rfl, rfl, helement, rfl, rfl, r.2, hbody⟩

/-- Once the body is written, the code is complete. -/
theorem exists_emit {body : List Stmt} {w : Writer} (h : Emit.program p opts {} = .ok (body, w))
    (hdtype : opts.element.cType?.isSome) :
    ∃ code f, emit p opts = .ok code ∧ Emits p opts code f ∧ f.body = body := by
  obtain ⟨element, helement⟩ := Option.isSome_iff_exists.mp hdtype
  have hemit : ∃ code, emit p opts = .ok code := by
    simp only [emit, emitFunction, helement, C.function, h]
    exact ⟨_, rfl⟩
  obtain ⟨code, hcode⟩ := hemit
  obtain ⟨f, hf⟩ := emit_eq_ok hcode
  obtain ⟨w', hbody⟩ := hf.body
  rw [h] at hbody
  exact ⟨code, f, hcode, hf, (Prod.mk.inj (Except.ok.inj hbody)).1.symm⟩

end C

/-! ## Lowered programs -/

namespace Lowered

open Pass C

variable {p : Typed.Program} {r q : Program} {cs : List Clause} (h : Lowered K p r q cs)
include h

/-- The code of a lowered program does to the arrays what its clauses do to their cells. The arrays
are those of some of the tensors, among them all that the clauses read or write. -/
theorem program_spec (hfind : ∀ name s, find name = some s → q.find name = some s)
    (hfits : ∀ c ∈ cs, c.Fits K find) (opts : EmitOptions) :
    ∃ body w, Emit.program r opts {} = .ok (body, w) ∧
      Runs (α := α) opts.layout find.shapes body (runClauses cs) := by
  have hcodable : ∀ c ∈ cs, Codable K r find.shapes c := by
    intro c hc
    obtain ⟨s, hs, hviews, -⟩ := (hfits c hc).declared
    refine ⟨h.direct c hc, ⟨s.shape, Symbols.shapes_eq hs, hviews⟩, (hfits c hc).shape, (hfits c hc).typed,
      fun name stored hstored => ?_⟩
    rw [Symbols.shapes, Option.map_eq_some_iff] at hstored
    obtain ⟨s, hs, rfl⟩ := hstored
    rw [h.find_eq, hfind name s hs]
    rfl
  rcases h.fused with rfl | ⟨extent, axes, rfl, hbound⟩
  · have hxs : ∀ x ∈ cs.map fun c => (c.assignment, c), Emittable K r find 1 x ∧ x.1.fuseAxis = none := by
      intro x hx
      obtain ⟨c, hc, rfl⟩ := List.mem_map.mp hx
      have hloop : c.assignment.fuseAxis = none := h.stage.loops c hc
      exact ⟨⟨h.stage.laid.places hc, hfits c hc, hcodable c hc, by simp [hloop]⟩, hloop⟩
    obtain ⟨body, w, hrun, hruns⟩ := C.program_spec (α := α) h.stage.fusion
      (by rw [h.stage.laid.assignments, List.map_map]; rfl) (fun x hx => (hxs x hx).1)
      fun x hx => (hxs x hx).2
    refine ⟨body, w, hrun, fun A hS hholds => ?_⟩
    rw [← runSlices_clauses 0 h.stage.loops]
    exact hruns A hS hholds
  · have hxs : ∀ x ∈ boundTo cs axes, Emittable K (shared q extent axes) find extent x := by
      intro x hx
      obtain ⟨k, hk, hc, hshares⟩ := hbound.mem_boundTo hx
      refine ⟨hbound.places hx, hfits _ hc, hcodable _ hc, fun j hj => ?_⟩
      rw [hk] at hj
      cases hj
      exact hshares.axis
    have hextent : Addressable find.shapes → extent < 0x80000000 := by
      intro hS
      obtain ⟨c, hc⟩ := List.exists_mem_of_ne_nil cs hbound.nonempty
      obtain ⟨i, hi⟩ := List.mem_iff_getElem?.mp hc
      obtain ⟨k, -, hshares⟩ := forall₂_getElem? hbound.shares hi
      obtain ⟨s, hs, hviews, -⟩ := (hfits c hc).declared
      obtain ⟨hpos, hcount⟩ := hS c.name s.shape (Symbols.shapes_eq hs)
      refine Int.lt_of_le_of_lt (Shape.le_count hpos (hviews.mem_stored ?_)) hcount
      exact List.mem_of_getElem? hshares.axis
    obtain ⟨body, w, hrun, hruns⟩ := C.program_spec_shared (α := α) rfl
      (map_fst_boundTo h.stage.laid) hxs hbound.pos hextent
    refine ⟨body, w, hrun, fun A hS hholds => ?_⟩
    obtain ⟨A', hrun', hholds', hcells⟩ := hruns A hS hholds
    refine ⟨A', hrun', hholds', hcells.trans fun name stored sub hstored hsub => ?_⟩
    rw [Symbols.shapes, Option.map_eq_some_iff] at hstored
    obtain ⟨s, hs, rfl⟩ := hstored
    exact hbound.runLoop_agree _ name s.shape sub (Symbols.shapes_eq (hfind name s hs)) hsub

end Lowered

end LoopNest
