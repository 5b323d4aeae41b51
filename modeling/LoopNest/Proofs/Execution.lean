import LoopNest.Proofs.Loops
import LoopNest.Proofs.Tree.Alignment

/-!
# Execution

The interpreter does to a memory what the clauses of a program do to its cells. One element is
computed from the cells as they are (`runElement_spec`), one assignment gives its destination the
values that its tree had beforehand (`runAssignment_spec`), because an aligned tree reads the
destination only where it is being written, and so a whole list of assignments does what its clauses
do (`runAssignments_spec`).
-/

namespace LoopNest

variable {α : Type} [Scalar α] {K : ShapeClass} {N : NodeClass} {find : Symbols} {c : Clause}

/-! ## Cells -/

/-- Gives the cells at some of the indices of the destination the value of the tree. -/
def Clause.stepOn (c : Clause) (V : List Int → Prop) [DecidablePred V] (σ : Cells α) : Cells α :=
  fun name sub =>
    if name = c.name then
      match c.target.own? sub with
      | some idx => if V idx then c.tree.eval σ idx else σ name sub
      | none => σ name sub
    else σ name sub

section

variable {V W : List Int → Prop} [DecidablePred V] [DecidablePred W]

theorem Clause.stepOn_of_ne {name : String} (h : name ≠ c.name) (σ : Cells α) :
    c.stepOn V σ name = σ name := by
  funext sub
  exact if_neg h

theorem Clause.stepOn_own {sub idx : List Int} (h : c.target.own? sub = some idx) (σ : Cells α) :
    c.stepOn V σ c.name sub = if V idx then c.tree.eval σ idx else σ c.name sub := by
  rw [stepOn, if_pos rfl, h]

theorem Clause.stepOn_not_own {sub : List Int} (h : c.target.own? sub = none) (σ : Cells α)
    (name : String) : c.stepOn V σ name sub = σ name sub := by
  rw [stepOn, h]
  split <;> rfl

theorem Clause.stepOn_congr (h : ∀ idx, InRange c.target.shape idx → (V idx ↔ W idx)) (σ : Cells α) :
    c.stepOn V σ = c.stepOn W σ := by
  funext name sub
  by_cases hname : name = c.name
  · subst hname
    cases hown : c.target.own? sub with
    | none => rw [stepOn_not_own hown, stepOn_not_own hown]
    | some idx =>
      rw [stepOn_own hown, stepOn_own hown]
      exact if_congr (h idx (Node.own?_eq_some_iff.mp hown).2) rfl rfl
  · rw [stepOn_of_ne hname, stepOn_of_ne hname]

theorem Clause.stepOn_eq_step (h : ∀ idx, InRange c.target.shape idx → V idx) (σ : Cells α) :
    c.stepOn V σ = c.step σ := by
  funext name sub
  by_cases hname : name = c.name
  · subst hname
    cases hown : c.target.own? sub with
    | none => rw [stepOn_not_own hown, step_not_own hown]
    | some idx =>
      rw [stepOn_own hown, step_own hown, if_pos (h idx (Node.own?_eq_some_iff.mp hown).2)]
  · rw [stepOn_of_ne hname, step_of_ne hname]

/-- Giving one more cell the value of the tree. -/
theorem Clause.stepOn_put {done : List (List Int)} {σ : Cells α} {idx : List Int} {v : α}
    (hv : c.tree.eval σ idx = some v) :
    (c.stepOn (· ∈ done) σ).put c.target idx v = c.stepOn (· ∈ done ++ [idx]) σ := by
  funext name sub
  by_cases hname : name = c.name
  · subst hname
    cases hown : c.target.own? sub with
    | none =>
      rw [Cells.put, if_neg (by simp [hown]), stepOn_not_own hown, stepOn_not_own hown]
    | some idx' =>
      rw [Cells.put, stepOn_own hown, stepOn_own hown, hown]
      by_cases heq : idx' = idx
      · subst heq
        simp [hv]
      · simp [heq]
  · rw [Cells.put_of_ne hname, stepOn_of_ne hname, stepOn_of_ne hname]

theorem Clause.stepOn_nil (σ : Cells α) : c.stepOn (· ∈ ([] : List (List Int))) σ = σ := by
  funext name sub
  by_cases hname : name = c.name
  · subst hname
    cases hown : c.target.own? sub with
    | none => exact stepOn_not_own hown σ _
    | some idx => rw [stepOn_own hown, if_neg List.not_mem_nil]
  · rw [stepOn_of_ne hname]

theorem Cells.Agree.stepOn (hN : N.Sized) {σ τ : Cells α} (h : Cells.Agree find.shapes σ τ)
    (hfits : c.Fits N find) : Cells.Agree find.shapes (c.stepOn V σ) (c.stepOn V τ) := by
  intro name stored sub hS hsub
  by_cases hname : name = c.name
  · subst hname
    cases hown : c.target.own? sub with
    | none =>
      rw [Clause.stepOn_not_own hown, Clause.stepOn_not_own hown]
      exact h c.name stored sub hS hsub
    | some idx =>
      have hin := (Node.own?_eq_some_iff.mp hown).2
      rw [Clause.stepOn_own hown, Clause.stepOn_own hown,
        h.eval_eq hN hfits.typed (hfits.shape ▸ hin), h c.name stored sub hS hsub]
  · rw [Clause.stepOn_of_ne hname, Clause.stepOn_of_ne hname]
    exact h name stored sub hS hsub

end

theorem Cells.Agree.step (hN : N.Sized) {σ τ : Cells α} (h : Cells.Agree find.shapes σ τ)
    (hfits : c.Fits N find) : Cells.Agree find.shapes (c.step σ) (c.step τ) := by
  rw [← Clause.stepOn_eq_step (V := fun _ => True) (fun _ _ => trivial),
    ← Clause.stepOn_eq_step (V := fun _ => True) (fun _ _ => trivial)]
  exact h.stepOn hN hfits

theorem Cells.Agree.runClauses (hN : N.Sized) {cs : List Clause} (hfits : ∀ c ∈ cs, c.Fits N find)
    {σ τ : Cells α} (h : Cells.Agree find.shapes σ τ) :
    Cells.Agree find.shapes (runClauses cs σ) (LoopNest.runClauses cs τ) := by
  induction cs generalizing σ τ with
  | nil => exact h
  | cons c cs ih =>
    exact ih (fun d hd => hfits d (List.mem_cons_of_mem _ hd)) (h.step hN (hfits c (.head _)))

/-! ## One element -/

theorem Clause.Fits.target_pos (h : c.Fits K find) : ∀ d ∈ c.target.shape, 0 < d :=
  h.shape ▸ K.pos h.typed.mem

/-- A well-shaped tree has a value at every index, in a memory that holds all tensors. -/
theorem Memory.Fits.eval_isSome (hN : N.Sized) {S : Shapes} {mem : Memory α} (h : mem.Fits S)
    (hS : S.Countable) {t : Tree} (ht : t.Typed N.Admits S) {idx : List Int}
    (hidx : InRange t.shape idx) : (t.eval (cellsOf mem) idx).isSome := by
  refine Tree.eval_isSome hN.admits ht hidx fun name sub htouch => ?_
  obtain ⟨stored, hstored, hsub⟩ := htouch.inRange ht hidx
  exact h.isSome hS hstored hsub

/-- A contraction does not read the destination that it is aligned with. -/
theorem Tree.Aligned.apart_of_permutes {dst : Node} {t : Tree} (h : t.Aligned dst)
    (hkind : t.kind.permutes = true) : dst.name ∉ t.names := by
  cases h with
  | apart h => exact h
  | ident hk _ _ => simp [Tree.kind, hk, NodeKind.permutes] at hkind
  | pointwise _ hk _ => simp [Tree.kind, hk] at hkind

/-- The sum that a contraction accumulates in its destination, over some of the contracted
indices. -/
theorem Clause.Fits.accumulate_spec (hN : N.Sized) (h : c.Fits N find)
    (hS : find.shapes.Countable) {id : NodeId} {n : Node} {ts : List Tree}
    (htree : c.tree = .node id n ts) (hkind : n.kind = .contraction)
    (hapart : c.name ∉ c.tree.names) {es : List Int} (hes : n.contractedExtents ts = some es)
    {idx : List Int} (hidx : InRange c.target.shape idx) (σ : Cells α) {l : List (List Int)}
    (hl : ∀ k ∈ l, InRange es k) {s v : α} (hv : l.foldlM (fun sum k =>
      (n.termWith ts (ts.map (Tree.eval σ)) idx k).bind fun x => some (sum + x)) s = some v)
    {mem : Memory α} (hmem : mem.Fits find.shapes)
    (hcells : Cells.Agree find.shapes (cellsOf mem) (σ.put c.target idx s)) :
    ∃ mem', l.foldlM (fun mem k => do
        let term ← n.termWith ts (Tree.evalAll (cellsOf mem) ts) idx k
        storeAt mem c.target idx ((← loadAt (cellsOf mem) c.target idx) + term)) mem = some mem' ∧
      mem'.Fits find.shapes ∧ mem.Alters c.name mem' ∧
      Cells.Agree find.shapes (cellsOf mem') (σ.put c.target idx v) := by
  induction l generalizing s mem with
  | nil =>
    cases hv
    exact ⟨mem, rfl, hmem, .refl _ _, hcells⟩
  | cons k l ih =>
    have htyped := h.typed
    rw [htree] at htyped
    have hshape : InRange n.shape idx := by
      have := h.shape
      rw [htree, Tree.shape_node] at this
      exact this ▸ hidx
    rw [List.foldlM_cons, Option.bind_eq_bind, Option.bind_eq_some_iff] at hv
    obtain ⟨s', hs', hv⟩ := hv
    obtain ⟨x, hx, hs'⟩ := Option.bind_eq_some_iff.mp hs'
    cases hs'
    -- the sum so far stands in a tensor that the operands do not read
    have hterm : n.termWith ts (Tree.evalAll (cellsOf mem) ts) idx k = some x := by
      rw [← hx, Tree.evalAll_eq_map]
      refine htyped.termWith_congr hN.admits hkind hes hshape (hl k (.head _))
        fun name sub htouch => ?_
      obtain ⟨stored, hstored, hsub⟩ := htouch.inRange htyped hshape
      rw [hcells name stored sub hstored hsub, Cells.put_of_ne]
      rintro rfl
      exact hapart (htree ▸ htouch.mem_names)
    have hload : loadAt (cellsOf mem) c.target idx = some s := by
      obtain ⟨d, hd, hviews, -⟩ := h.declared
      obtain ⟨sub, hsub, hin⟩ := hviews.subscript_inRange hidx
      rw [loadAt, hsub, Option.bind_eq_bind, Option.bind_some,
        hcells c.name d.shape sub (Symbols.shapes_eq hd) hin]
      exact Cells.put_own (Node.own?_eq_some_iff.mpr ⟨hsub, hidx⟩)
    obtain ⟨mem₁, hstore, hmem₁, halters₁, hcells₁⟩ := h.store_spec hmem hS hidx (s + x)
    have hcells₁ : Cells.Agree find.shapes (cellsOf mem₁) (σ.put c.target idx (s + x)) := by
      refine hcells₁.trans ?_
      rw [← Cells.put_put σ c.target idx s]
      exact hcells.put c.target idx _
    obtain ⟨mem₂, hrest, hmem₂, halters₂, hcells₂⟩ :=
      ih (fun k hk => hl k (List.mem_cons_of_mem _ hk)) hv hmem₁ hcells₁
    refine ⟨mem₂, ?_, hmem₂, halters₁.trans halters₂, hcells₂⟩
    rw [List.foldlM_cons, hterm, hload]
    simp only [Option.bind_eq_bind, Option.bind_some, hstore]
    exact hrest

/-- One element of an assignment gets the value of the tree. -/
theorem Clause.Fits.runElement_spec (hN : N.Sized) (h : c.Fits N find) (halign : c.tree.Aligned c.target)
    {mem : Memory α} (hmem : mem.Fits find.shapes) (hS : find.shapes.Countable) {idx : List Int}
    (hidx : InRange c.target.shape idx) :
    ∃ v mem', c.tree.eval (cellsOf mem) idx = some v ∧
      Program.runElement c.target c.tree idx mem = some mem' ∧ mem'.Fits find.shapes ∧
      mem.Alters c.name mem' ∧
      Cells.Agree find.shapes (cellsOf mem') ((cellsOf mem).put c.target idx v) := by
  obtain ⟨v, hv⟩ := Option.isSome_iff_exists.mp (hmem.eval_isSome hN hS h.typed (h.shape ▸ hidx))
  cases htree : c.tree with
  | missing =>
    rw [htree] at hv
    cases hv
  | node id n ts =>
    by_cases hkind : n.kind = .contraction
    · have htyped := h.typed
      rw [htree] at htyped
      obtain ⟨es, hes, hpos⟩ := htyped.contractedExtents hN.admits hkind
      obtain ⟨mem₁, hstore, hmem₁, halters₁, hcells₁⟩ := h.store_spec hmem hS hidx (0 : α)
      have hapart : c.name ∉ c.tree.names := halign.apart_of_permutes (by
        rw [htree, Tree.kind_node, hkind]
        rfl)
      have hsum := hv
      rw [htree, Tree.eval_contraction hkind hes hpos] at hsum
      obtain ⟨mem₂, hfold, hmem₂, halters₂, hcells₂⟩ :=
        h.accumulate_spec hN hS htree hkind hapart hes hidx (cellsOf mem)
          (fun k hk => mem_indices.mp hk) hsum hmem₁ hcells₁
      refine ⟨v, mem₂, htree ▸ hv, ?_, hmem₂, halters₁.trans halters₂, hcells₂⟩
      rw [Program.runElement, if_pos hkind, hstore, Option.bind_eq_bind, Option.bind_some, hes,
        Option.bind_eq_bind, Option.bind_some, forEach_eq_foldlM hpos]
      exact hfold
    · obtain ⟨mem', hstore, hmem', halters', hcells'⟩ := h.store_spec hmem hS hidx v
      refine ⟨v, mem', htree ▸ hv, ?_, hmem', halters', hcells'⟩
      rw [Program.runElement, if_neg hkind, ← htree, hv, Option.bind_eq_bind, Option.bind_some, hstore]

/-! ## One assignment -/

/-- The elements of an assignment, one after the other: each gets the value that the tree had at the
start. -/
theorem Clause.Fits.runElements_spec (hN : N.Sized) (h : c.Fits N find)
    (halign : c.tree.Aligned c.target) (hS : find.shapes.Countable) {σ : Cells α}
    {visits : List (List Int)} (hnd : visits.Nodup)
    (hin : ∀ idx ∈ visits, InRange c.target.shape idx) {mem : Memory α}
    (hmem : mem.Fits find.shapes) (hcells : Cells.Agree find.shapes (cellsOf mem) σ) :
    ∃ mem', visits.foldlM (fun mem idx => Program.runElement c.target c.tree idx mem) mem = some mem' ∧
      mem'.Fits find.shapes ∧ mem.Alters c.name mem' ∧
      Cells.Agree find.shapes (cellsOf mem') (c.stepOn (· ∈ visits) σ) := by
  obtain ⟨s, hs, hviews, -⟩ := h.declared
  refine foldlM_invariant (f := fun mem idx => Program.runElement c.target c.tree idx mem)
    (fun done mem' => Memory.Fits find.shapes mem' ∧ mem.Alters c.name mem' ∧
      Cells.Agree find.shapes (cellsOf mem') (c.stepOn (· ∈ done) σ)) ⟨hmem, .refl _ _, ?_⟩ ?_
  · rwa [Clause.stepOn_nil]
  intro done idx rest mem₁ hvisits hdone
  obtain ⟨hmem₁, halters₁, hcells₁⟩ := hdone
  have hidx := hin idx (by simp [hvisits])
  have hnot : idx ∉ done := by
    rw [hvisits, List.nodup_append] at hnd
    exact fun hmem => hnd.2.2 idx hmem idx (.head _) rfl
  obtain ⟨v, mem₂, hv, hrun, hmem₂, halters₂, hcells₂⟩ := h.runElement_spec hN halign hmem₁ hS hidx
  refine ⟨mem₂, hrun, hmem₂, halters₁.trans halters₂, hcells₂.trans ?_⟩
  -- the cells that the tree reads at this index are not written yet
  have hvalue : c.tree.eval σ idx = some v := by
    rw [← hv, hcells₁.eval_eq hN h.typed (h.shape ▸ hidx)]
    refine Tree.eval_congr hN.admits h.typed (h.shape ▸ hidx) fun name sub htouch => ?_
    by_cases hname : name = c.name
    · subst hname
      have hown := halign.touches h.typed (Symbols.shapes_eq hs) hviews (.inl h.shape)
        (h.shape ▸ hidx) htouch
      rw [Clause.stepOn_own hown, if_neg hnot]
    · rw [Clause.stepOn_of_ne hname]
  rw [← Clause.stepOn_put hvalue]
  exact hcells₁.put c.target idx v

namespace Program.Places

variable {p : Program} {a : Assignment}

/-- An assignment gives the cells of its destination, at the given value of the shared loop, the
values that its tree had at the start. -/
theorem runAssignment_spec (h : p.Places a c) (hfits : c.Fits K find)
    (halign : c.tree.Aligned c.target) (hS : find.shapes.Countable) {f : Int}
    (hf : ∀ k ∈ a.fuseAxis, ∃ d, c.target.shape[k]? = some d ∧ 0 ≤ f ∧ f < d) {σ : Cells α}
    {mem : Memory α} (hmem : mem.Fits find.shapes)
    (hcells : Cells.Agree find.shapes (cellsOf mem) σ) :
    ∃ mem', p.runAssignment a f mem = .ok mem' ∧ mem'.Fits find.shapes ∧ mem'.keys = mem.keys ∧
      Cells.Agree find.shapes (cellsOf mem') (c.stepOn (AtShared a.fuseAxis f) σ) := by
  obtain ⟨visits, hnd, hvisits, hrun⟩ := h.runAssignment_eq hfits hf
  obtain ⟨s, hs, -⟩ := hfits.declared
  obtain ⟨mem', hfold, hmem', halters, hcells'⟩ := hfits.runElements_spec K.sized halign hS hnd
    (fun idx hidx => ((hvisits idx).mp hidx).1) hmem hcells
  refine ⟨mem', ?_, hmem', halters.keys, ?_⟩
  · rw [hrun mem (hmem.contains (Symbols.shapes_eq hs)), hfold]
    rfl
  · rwa [Clause.stepOn_congr fun idx hidx => (hvisits idx).trans (and_iff_right hidx)] at hcells'

end Program.Places

/-! ## All assignments -/

/-- Runs clauses from first to last, each at the indices at which the axis of its shared loop has a
given value. -/
def runSlices (f : Int) (xs : List (Assignment × Clause)) (σ : Cells α) : Cells α :=
  xs.foldl (fun σ x => x.2.stepOn (AtShared x.1.fuseAxis f) σ) σ

@[simp] theorem runSlices_cons (f : Int) (x : Assignment × Clause) (xs : List (Assignment × Clause))
    (σ : Cells α) : runSlices f (x :: xs) σ =
      runSlices f xs (x.2.stepOn (AtShared x.1.fuseAxis f) σ) := rfl

theorem runSlices_clauses (f : Int) {cs : List Clause} (hloops : ∀ c ∈ cs, c.fuseAxis = none)
    (σ : Cells α) : runSlices f (cs.map fun c => (c.assignment, c)) σ = runClauses cs σ := by
  induction cs generalizing σ with
  | nil => rfl
  | cons c cs ih =>
    rw [List.map_cons, runSlices_cons, ih fun d hd => hloops d (List.mem_cons_of_mem _ hd),
      runClauses_cons]
    refine congrArg _ (Clause.stepOn_eq_step (fun idx _ => ?_) σ)
    rw [show c.assignment.fuseAxis = none from hloops c (.head _)]
    exact atShared_none f idx

/-- The assignments of a program, in any run of the shared loop. -/
structure Executes (K : ShapeClass) (p : Program) (find : Symbols) (f : Int)
    (x : Assignment × Clause) : Prop where
  places : p.Places x.1 x.2
  fits : x.2.Fits K find
  aligned : x.2.tree.Aligned x.2.target
  within : ∀ k ∈ x.1.fuseAxis, ∃ d, x.2.target.shape[k]? = some d ∧ 0 ≤ f ∧ f < d

theorem runAssignments_spec {p : Program} (hS : find.shapes.Countable) {f : Int}
    {xs : List (Assignment × Clause)} (hxs : ∀ x ∈ xs, Executes K p find f x) {σ : Cells α}
    {mem : Memory α} (hmem : mem.Fits find.shapes)
    (hcells : Cells.Agree find.shapes (cellsOf mem) σ) (i : Nat) :
    ∃ mem', p.runAssignments f i (xs.map Prod.fst) mem = .ok mem' ∧ mem'.Fits find.shapes ∧
      mem'.keys = mem.keys ∧ Cells.Agree find.shapes (cellsOf mem') (runSlices f xs σ) := by
  induction xs generalizing σ mem i with
  | nil => exact ⟨mem, rfl, hmem, rfl, hcells⟩
  | cons x xs ih =>
    have hx := hxs x (.head _)
    obtain ⟨mem₁, hrun₁, hmem₁, hkeys₁, hcells₁⟩ :=
      hx.places.runAssignment_spec hx.fits hx.aligned hS hx.within hmem hcells
    obtain ⟨mem₂, hrun₂, hmem₂, hkeys₂, hcells₂⟩ :=
      ih (fun y hy => hxs y (List.mem_cons_of_mem _ hy)) hmem₁ hcells₁ (i + 1)
    refine ⟨mem₂, ?_, hmem₂, hkeys₂.trans hkeys₁, hcells₂⟩
    rw [List.map_cons, Program.runAssignments, hrun₁]
    exact hrun₂

/-- Without a shared loop, clauses are run as they are. -/
theorem Program.Laid.executes {p : Program} {cs : List Clause} (hlaid : p.Laid cs)
    (hloops : ∀ c ∈ cs, c.fuseAxis = none) (hfits : ∀ c ∈ cs, c.Fits K find)
    (haligned : ∀ c ∈ cs, c.tree.Aligned c.target) (f : Int) :
    ∀ x ∈ cs.map (fun c => (c.assignment, c)), Executes K p find f x := by
  intro x hx
  obtain ⟨c, hc, rfl⟩ := List.mem_map.mp hx
  refine ⟨hlaid.places hc, hfits c hc, haligned c hc, fun k hk => ?_⟩
  rw [show c.assignment.fuseAxis = none from hloops c hc] at hk
  cases hk

/-- The clauses of a program without a shared loop are run from first to last. -/
theorem Program.run_spec {p : Program} {cs : List Clause} (hlaid : p.Laid cs)
    (hfusion : p.fusion = none) (hloops : ∀ c ∈ cs, c.fuseAxis = none)
    (hfits : ∀ c ∈ cs, c.Fits K find) (haligned : ∀ c ∈ cs, c.tree.Aligned c.target)
    (hS : find.shapes.Countable) {mem : Memory α} (hmem : mem.Fits find.shapes) :
    ∃ mem', p.run mem = .ok mem' ∧ mem'.Fits find.shapes ∧ mem'.keys = mem.keys ∧
      Cells.Agree find.shapes (cellsOf mem') (runClauses cs (cellsOf mem)) := by
  obtain ⟨mem', hrun, hmem', hkeys', hcells'⟩ :=
    runAssignments_spec hS (hlaid.executes hloops hfits haligned (-1)) hmem (Cells.Agree.refl _) 0
  rw [runSlices_clauses (-1) hloops] at hcells'
  refine ⟨mem', ?_, hmem', hkeys', hcells'⟩
  rw [Program.run, hfusion, hlaid.assignments]
  rw [List.map_map] at hrun
  exact hrun

end LoopNest
