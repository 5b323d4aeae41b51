import LoopNest.Compile
import LoopNest.Proofs.Building
import LoopNest.Proofs.Inputs
import LoopNest.Proofs.Pass.Fusing
import LoopNest.Proofs.Pass.Untransposing

/-!
# Lowering

Every stage of lowering stands for clauses that obey the invariants and compute what the typed
program says (`Translates`). The passes all succeed (`lower_spec`), and what they leave is run by the
interpreter as its clauses (`Lowered.run_spec`).
-/

namespace LoopNest

open Pass

variable {K : ShapeClass} {p : Typed.Program} {q r : Program} {cs : List Clause}

/-- A stage of lowering without a shared loop: the clauses of a program, and that they leave in the
declared tensors what the clauses of the typed program do. -/
structure Translates (K : ShapeClass) (p : Typed.Program) (q : Program) (cs : List Clause) : Prop where
  laid : q.Laid cs
  tidy : q.Tidy
  sound : Sound K q.find cs
  fusion : q.fusion = none
  loops : ∀ c ∈ cs, c.fuseAxis = none
  symbols : ∀ name s, s.role.isSynthesized = false → (q.find name = some s ↔ p.decl? name = some s)
  run : ∀ {α : Type} [Scalar α] (σ : Cells α) name s, p.decl? name = some s →
    s.role.isSynthesized = false → runClauses cs σ name = runClauses p.clauses σ name

theorem Translates.refine {q' : Program} {cs' : List Clause} (h : Translates K p q cs)
    (hshows : q'.Shows K.nodes cs') (href : Refines K.nodes q cs q' cs') : Translates K p q' cs' := by
  refine ⟨hshows.laid, hshows.tidy, href.sound rfl h.sound, href.fusion.trans h.fusion,
    href.loops h.loops, fun name s hs => ?_, fun σ name s hd hs => ?_⟩
  · exact (href.symbols hs).trans (h.symbols name s hs)
  · have hq := (h.symbols name s hs).mpr hd
    exact (href.run K.sized σ name s hq ((href.symbols hs).mpr hq)).trans (h.run σ name s hd hs)

/-- A stage in which every node has one place. Synthesized tensors are read once, unless they are
exempt. -/
structure Staged (K : ShapeClass) (p : Typed.Program) (exempt : String → Prop) (q : Program)
    (cs : List Clause) : Prop extends Translates K p q cs where
  unshared : Unshared cs
  single : Single exempt q.find cs

theorem Staged.shows {exempt : String → Prop} (h : Staged K p exempt q cs) : q.Shows K.nodes cs :=
  ⟨h.laid, h.unshared, h.tidy, h.sound.symbols, h.sound.fits⟩

/-! ## The passes -/

theorem runPasses_cons {name : String} {pass : Edit Unit} {q' : Program} (h : pass q = .ok () q')
    (rest : List (String × Edit Unit)) : runPasses q ((name, pass) :: rest) = runPasses q' rest := by
  rw [runPasses, h]

/-- The clauses of a typed program do not read their own destinations when its statements do not. -/
theorem Typed.Program.Checked.readsOthers (h : p.Checked K)
    (hothers : ∀ st ∈ p.stmts, st.ReadsOthers) : ∀ c ∈ p.clauses, c.ReadsOthers := by
  have hstmts : ∀ {s : Typed.Scope} {stmts : List Typed.Stmt}, s.Runs K stmts →
      (∀ st ∈ stmts, st.ReadsOthers) → ∀ st ∈ stmts, st.dst ∉ st.expr.tree.names := by
    intro s stmts hruns hothers
    induction stmts generalizing s with
    | nil => simp
    | cons st rest ih =>
      obtain ⟨⟨_, sh, -, -, -, hshaped⟩, hrest⟩ := hruns
      intro st' hst'
      rcases List.mem_cons.mp hst' with rfl | hst'
      · intro hmem
        obtain ⟨d, -, -, hpart⟩ := hshaped.names_read _ hmem
        exact hothers _ (.head _) d.shape hpart
      · exact ih hrest (fun st hst => hothers st (List.mem_cons_of_mem _ hst)) st' hst'
  intro c hc
  obtain ⟨st, hst, rfl⟩ := List.mem_map.mp hc
  exact hstmts h.runs hothers st hst

/-- Building a valid program succeeds. -/
theorem build_stage (hvalid : p.Valid) (hcoh : p.Coherent) (h : p.Checked K) :
    ∃ q cs, build p = .ok q ∧ Translates K p q cs ∧ (∀ c ∈ cs, c.target.operands = []) ∧
      (∀ name s, q.find name = some s → s.role.isSynthesized = false) ∧
      ((∀ st ∈ p.stmts, st.ReadsOthers) → ∀ c ∈ cs, c.ReadsOthers) := by
  obtain ⟨q, cs, hrun, hlaid, hdst, hcopies, htidy, hfind, hfusion, -⟩ := build_spec hvalid hcoh h
  refine ⟨q, cs, hrun, ⟨hlaid, htidy, ?_, hfusion, fun c hc => ?_, fun name s _ => by rw [hfind],
    fun σ name s _ _ => by rw [run_copies hcopies]⟩, hdst, fun name s hs => ?_, fun hothers c hc => ?_⟩
  · rw [hfind]
    exact sound_copies h.sound hcopies hlaid.stored
  · obtain ⟨c₀, hc₀, hcopy⟩ := exists_of_forall₂ hcopies hc
    obtain ⟨st, -, rfl⟩ := List.mem_map.mp hc₀
    exact hcopy.fuseAxis
  · rw [hfind] at hs
    exact (h.fits s (List.mem_of_find?_eq_some hs)).declared
  · obtain ⟨c₀, hc₀, hcopy⟩ := exists_of_forall₂ hcopies hc
    rw [Clause.ReadsOthers, hcopy.name, Tree.names_eq_of_strip hcopy.strip]
    exact h.readsOthers hothers c₀ hc₀

/-- Lifting what was built succeeds. -/
theorem Translates.lift_spec (h : Translates K p q cs) (hdst : ∀ c ∈ cs, c.target.operands = []) :
    ∃ q' cs', lift contractionOrStack q = .ok () q' ∧ q'.Shows K.nodes cs' ∧ Translates K p q' cs' ∧
      KeepsSingle q.find cs q'.find cs' ∧ (∀ c ∈ cs', Rooted contractionOrStack c.tree) ∧
      ((∀ c ∈ cs, c.ReadsOthers) → ∀ c ∈ cs', c.ReadsOthers) := by
  obtain ⟨q', cs', _, hrun, hshows, hrev, hlifts, hrooted, hothers⟩ :=
    Pass.lift_spec (rfl : contractionOrStack .identifier = false) h.laid
      (Program.Laid.original h.laid hdst) h.tidy h.sound.symbols h.sound.fits h.sound.verified
  exact ⟨q', cs', hrun, hshows, h.refine hshows hrev.toRefines, hlifts.single, hrooted, hothers⟩

/-- A tensor that was added between two programs. -/
def Program.Added (q q' : Program) (name : String) : Prop := q.find name = none ∧ (q'.find name).isSome

/-- Building a program and the passes up to the one that may share loops. All tensors that are added
are read once, except for the copies of overwritten tensors. -/
structure Stages (K : ShapeClass) (p : Typed.Program) (q₀ q₁ q₂ q₃ q₄ : Program)
    (cs₁ cs₂ cs₃ cs₄ : List Clause) : Prop where
  build_run : build p = .ok q₀
  lift_run : lift contractionOrStack q₀ = .ok () q₁
  unstack_run : unstack q₁ = .ok () q₂
  aliasCopy_run : aliasCopy q₂ = .ok () q₃
  untranspose_run : untranspose q₃ = .ok () q₄
  lifted : Staged K p (fun _ => False) q₁ cs₁
  unstacked : Staged K p (fun _ => False) q₂ cs₂
  copied : Staged K p (q₂.Added q₃) q₃ cs₃
  untransposed : Staged K p (q₂.Added q₃) q₄ cs₄
  rooted : ∀ c ∈ cs₁, Rooted contractionOrStack c.tree
  flat : ∀ c ∈ cs₂, Flat contractionOrStack c
  compatible : ∀ c ∈ cs₃, Compatible c
  direct : ∀ c ∈ cs₄, Direct c

/-- All stages of a valid program succeed. -/
theorem stages_spec (hvalid : p.Valid) (hcoh : p.Coherent) (h : p.Checked K) :
    ∃ q₀ q₁ q₂ q₃ q₄ cs₁ cs₂ cs₃ cs₄, Stages K p q₀ q₁ q₂ q₃ q₄ cs₁ cs₂ cs₃ cs₄ := by
  obtain ⟨q₀, cs₀, hrun₀, hstage₀, hdst, hdeclared, -⟩ := build_stage hvalid hcoh h
  obtain ⟨q₁, cs₁, hrun₁, hshows₁, hstage₁, hkeeps₁, hrooted, -⟩ := hstage₀.lift_spec hdst
  have hsingle₁ := hkeeps₁ (fun _ => False) (.of_declared hdeclared)
  obtain ⟨q₂, cs₂, hrun₂, hshows₂, href₂, hflat₂, -⟩ := unstack_spec hshows₁ hstage₁.sound hrooted
  have hstage₂ := hstage₁.refine hshows₂ href₂.toRefines
  have hsingle₂ := href₂.single _ hsingle₁
  obtain ⟨q₃, cs₃, hrun₃, hshows₃, hrev₃, hkeeps₃, hcompat, hflat₃⟩ :=
    aliasCopy_spec hshows₂ hstage₂.sound.verified
  have hstage₃ := hstage₂.refine hshows₃ hrev₃.toRefines
  have hsingle₃ : Single (q₂.Added q₃) q₃.find cs₃ :=
    (hkeeps₃ rfl hstage₂.sound _ hsingle₂).mono fun name s hs hnone =>
      ⟨hnone.resolve_left not_false, Option.isSome_iff_exists.mpr ⟨s, hs⟩⟩
  obtain ⟨q₄, cs₄, hrun₄, hshows₄, hrev₄, hkeeps₄, hunturned, hflat₄, haligned⟩ :=
    untranspose_spec K.numbered hshows₃ hstage₃.sound.verified selectsStacks_contractionOrStack
      (hflat₃ _ selectsStacks_contractionOrStack hflat₂)
  have haligned₃ : ∀ c ∈ cs₃, c.tree.Aligned c.target := fun c hc =>
    Compatible.aligned (hcompat c hc) (hshows₃.fits c hc)
  exact ⟨q₀, q₁, q₂, q₃, q₄, cs₁, cs₂, cs₃, cs₄, hrun₀, hrun₁, hrun₂, hrun₃, hrun₄,
    ⟨hstage₁, hshows₁.unshared, hsingle₁⟩, ⟨hstage₂, hshows₂.unshared, hsingle₂⟩,
    ⟨hstage₃, hshows₃.unshared, hsingle₃⟩,
    ⟨hstage₃.refine hshows₄ hrev₄.toRefines, hshows₄.unshared, hkeeps₄ _ hsingle₃⟩, hrooted, hflat₂,
    hcompat, fun c hc => ⟨hflat₄ c hc, haligned haligned₃ c hc, hunturned c hc⟩⟩

/-- A lowered program: its clauses are direct, and a shared loop is bound to all of them. -/
structure Lowered (K : ShapeClass) (p : Typed.Program) (r q : Program) (cs : List Clause) : Prop where
  stage : Translates K p q cs
  unshared : Unshared cs
  direct : ∀ c ∈ cs, Direct c
  fused : r = q ∨ ∃ extent axes, r = shared q extent axes ∧ Bound K q cs extent axes

/-- Whether a loop is shared or not, the passes leave the clauses of the last stage. -/
theorem Stages.lower_spec {q₀ q₁ q₂ q₃ q₄ : Program} {cs₁ cs₂ cs₃ cs₄ : List Clause}
    (h : Stages K p q₀ q₁ q₂ q₃ q₄ cs₁ cs₂ cs₃ cs₄) (fuse : Bool) :
    ∃ r, lower p fuse = .ok r ∧ Lowered K p r q₄ cs₄ := by
  have hpasses : ∀ rest, runPasses q₀ ([("lift", lift contractionOrStack), ("stackelim", unstack),
      ("aliascopy", aliasCopy), ("transpose", untranspose)] ++ rest) = runPasses q₄ rest := by
    intro rest
    simp only [List.cons_append, List.nil_append, runPasses_cons h.lift_run,
      runPasses_cons h.unstack_run, runPasses_cons h.aliasCopy_run, runPasses_cons h.untranspose_run]
  have hstage := h.untransposed.toTranslates
  rw [lower, h.build_run]
  cases fuse with
  | false => exact ⟨q₄, hpasses [], hstage, h.untransposed.unshared, h.direct, .inl rfl⟩
  | true =>
    obtain ⟨r, hfuse, hr⟩ : ∃ r, fuse q₄ = some r ∧
        (r.2 = q₄ ∨ ∃ extent axes, r.2 = shared q₄ extent axes ∧ Bound K q₄ cs₄ extent axes) := by
      rcases fuse_spec hstage.laid hstage.sound.fits with hf | ⟨extent, axes, hf, hbound⟩
      · exact ⟨_, hf, .inl rfl⟩
      · exact ⟨_, hf, .inr ⟨extent, axes, rfl, hbound⟩⟩
    have hpass : fusePass q₄ = .ok () r.2 := Edit.change_run (by rw [hfuse, Option.map_some])
    exact ⟨r.2, (hpasses _).trans (runPasses_cons hpass []), hstage, h.untransposed.unshared,
      h.direct, hr⟩

/-- All passes succeed on a valid program. -/
theorem lower_spec (hvalid : p.Valid) (hcoh : p.Coherent) (h : p.Checked K) (fuse : Bool) :
    ∃ r q cs, lower p fuse = .ok r ∧ Lowered K p r q cs := by
  obtain ⟨q₀, q₁, q₂, q₃, q₄, cs₁, cs₂, cs₃, cs₄, hstages⟩ := stages_spec hvalid hcoh h
  obtain ⟨r, hlower, hlowered⟩ := hstages.lower_spec fuse
  exact ⟨r, q₄, cs₄, hlower, hlowered⟩

namespace Lowered

variable (h : Lowered K p r q cs)

include h

theorem symbols_eq : r.symbols = q.symbols := by
  rcases h.fused with rfl | ⟨extent, axes, rfl, -⟩
  · rfl
  · rfl

theorem find_eq : r.find = q.find := by rw [Program.find, Program.find, h.symbols_eq]

/-- The assignments of a lowered program are its clauses, one by one. -/
theorem paired : ∃ xs : List (Assignment × Clause), r.assignments = xs.map Prod.fst ∧
    xs.map Prod.snd = cs ∧ ∀ x ∈ xs, r.Places x.1 x.2 := by
  rcases h.fused with rfl | ⟨extent, axes, rfl, hbound⟩
  · refine ⟨cs.map fun c => (c.assignment, c), ?_, ?_, fun x hx => ?_⟩
    · rw [h.stage.laid.assignments, List.map_map]
      rfl
    · rw [List.map_map]
      exact List.map_id cs
    · obtain ⟨c, hc, rfl⟩ := List.mem_map.mp hx
      exact h.stage.laid.places hc
  · exact ⟨boundTo cs axes, map_fst_boundTo h.stage.laid, hbound.map_snd_boundTo, fun _ => hbound.places⟩

/-- Each assignment of a lowered program is that of a clause. -/
theorem exists_clause {a : Assignment} (ha : a ∈ r.assignments) :
    ∃ c ∈ cs, r.Places a c := by
  obtain ⟨xs, hass, rfl, hplaces⟩ := h.paired
  obtain ⟨x, hx, rfl⟩ := List.mem_map.mp (hass ▸ ha)
  exact ⟨x.2, List.mem_map_of_mem hx, hplaces x hx⟩

/-- The interpreter runs a lowered program as its clauses. -/
theorem run_spec {α : Type} [Scalar α] (hS : q.find.shapes.Countable) {mem : Memory α}
    (hmem : mem.Fits q.find.shapes) :
    ∃ mem', r.run mem = .ok mem' ∧ mem'.Fits q.find.shapes ∧ mem'.keys = mem.keys ∧
      Cells.Agree q.find.shapes (cellsOf mem') (runClauses cs (cellsOf mem)) := by
  have haligned : ∀ c ∈ cs, c.tree.Aligned c.target := fun c hc => (h.direct c hc).aligned
  rcases h.fused with rfl | ⟨extent, axes, rfl, hbound⟩
  · exact Program.run_spec h.stage.laid h.stage.fusion h.stage.loops h.stage.sound.fits haligned hS hmem
  · exact hbound.run_spec haligned hS hmem

end Lowered

/-! ## Both evaluators -/

variable {α : Type} [Scalar α]

theorem Sound.countable {find : Symbols} (h : Sound K find cs) (hK : K.Bounded) :
    find.shapes.Countable := by
  intro name stored hS
  rw [Symbols.shapes, Option.map_eq_some_iff] at hS
  obtain ⟨s, hs, rfl⟩ := hS
  exact hK.count_le_word (h.symbols name s hs)

/-- Whole-tensor evaluation of a valid program succeeds and does what its clauses do. -/
theorem Typed.Program.Checked.eval_spec (hvalid : p.Valid) (h : p.Checked K) (hK : K.Bounded)
    {inputs : Inputs α} (hinputs : inputs.Fill p.decl?) :
    ∃ mem mem', Typed.eval p inputs = .ok mem' ∧ mem'.Fits (Symbols.shapes p.decl?) ∧
      (∀ name d, p.decl? name = some d → mem.get? name = some (d.start inputs)) ∧
      Cells.Agree (Symbols.shapes p.decl?) (cellsOf mem') (runClauses p.clauses (cellsOf mem)) := by
  obtain ⟨mem, hrun, hmem, hstart⟩ := h.initialMemory_spec hK hinputs
  obtain ⟨mem', hrun', hmem', -, hcells⟩ :=
    Typed.evalStmts_spec hK h.runs (h.sound.countable hK) hmem (.refl _)
  refine ⟨mem, mem', ?_, hmem', hstart, hcells⟩
  rw [Typed.eval, show Typed.validate p = .ok () from hvalid, hrun]
  show orFault (Typed.evalStmts mem p.stmts) = _
  rw [hrun']
  rfl

/-- Values for the declared inputs fill the inputs of every stage. -/
theorem Translates.fill {α : Type} (h : Translates K p q cs) (hp : p.Checked K) {inputs : Inputs α}
    (hinputs : inputs.Fill p.decl?) : inputs.Fill q.find := by
  intro name vals hvals
  obtain ⟨d, hd, hrole⟩ := hinputs name vals hvals
  exact ⟨d, (h.symbols _ _ (hp.fits _ (List.mem_of_find?_eq_some hd)).declared).mpr hd, hrole⟩

/-- When a program with the symbols of a stage is run as the clauses of the stage, the interpreter
leaves in the declared tensors what whole-tensor evaluation does. -/
theorem Translates.interpret_spec (h : Translates K p q cs) (hvalid : p.Valid) (hp : p.Checked K)
    (hK : K.Bounded) (hsymbols : r.symbols = q.symbols)
    (hrun : ∀ mem : Memory α, mem.Fits q.find.shapes → ∃ mem', r.run mem = .ok mem' ∧
      mem'.Fits q.find.shapes ∧ mem'.keys = mem.keys ∧
      Cells.Agree q.find.shapes (cellsOf mem') (runClauses cs (cellsOf mem)))
    {inputs : Inputs α} (hinputs : inputs.Fill p.decl?) :
    ∃ m m', r.interpret inputs = .ok m ∧ Typed.eval p inputs = .ok m' ∧
      ∀ d ∈ p.decls, ∃ t, m.get? d.name = some t ∧ m'.get? d.name = some t := by
  have hsynth : ∀ {name d}, p.decl? name = some d → d.role.isSynthesized = false := fun hd =>
    (hp.fits _ (List.mem_of_find?_eq_some hd)).declared
  have hfind : ∀ {name d}, p.decl? name = some d → q.find name = some d := fun hd =>
    (h.symbols _ _ (hsynth hd)).mpr hd
  obtain ⟨mem, hinit, hmem, hstart⟩ :=
    h.tidy.initialMemory_spec hK h.sound.symbols (h.fill hp hinputs)
  obtain ⟨m, hm, hfits, -, hcells⟩ := hrun mem hmem
  obtain ⟨mem', m', hm', hfits', hstart', hcells'⟩ := hp.eval_spec hvalid hK hinputs
  refine ⟨m, m', ?_, hm', fun d hd => ?_⟩
  · rw [Program.interpret, hsymbols, hinit]
    exact hm
  have hdecl := hp.mem_decls.mp hd
  have hS := Symbols.shapes_eq hdecl
  have hS' := Symbols.shapes_eq (hfind hdecl)
  obtain ⟨t, ht, hfull⟩ := hfits d.name d.shape hS'
  obtain ⟨t', ht', hfull'⟩ := hfits' d.name d.shape hS
  -- both start from the same declared tensors, and the clauses of the program read no others
  have hsame : Cells.Agree (Symbols.shapes p.decl?) (cellsOf mem) (cellsOf mem') := by
    intro name stored sub hstored _
    rw [Symbols.shapes, Option.map_eq_some_iff] at hstored
    obtain ⟨d, hd, rfl⟩ := hstored
    rw [cellsOf, cellsOf, hstart name d (hfind hd), hstart' name d hd]
  have hcount := hp.sound.countable hK d.name d.shape hS
  have hnonneg := K.sized d.shape (hp.sound.symbols d.name d hdecl)
  have heq : t = t' := hfull.ext hfull' hnonneg hcount fun sub hsub => by
    have h₁ := hcells d.name d.shape sub hS' hsub
    have h₂ := (hsame.runClauses K.sized hp.sound.fits).trans hcells'.symm d.name d.shape sub hS hsub
    rw [h.run _ d.name d hdecl (hsynth hdecl), h₂] at h₁
    simpa [cellsOf, ht, ht'] using h₁
  exact ⟨t, ht, heq ▸ ht'⟩

end LoopNest
