import LoopNest.Proofs.Acceptance
import LoopNest.Proofs.Execution

/-!
# The meaning of programs

`Program.runWhole` runs the assignments of a program one after the other, each as a whole: its
expression is evaluated at every index of the result, and all values are stored afterwards. That is
what the clauses of the program do to the cells of the memory (`Program.Laid.runWhole_spec`), so a
program that refines an accepted one has the same meaning (`Program.Accepted.sameMeaning`).
-/

namespace LoopNest

section
variable {α : Type} [Scalar α]

namespace Program

/-- Evaluates the expression of an assignment at every index of its result, in the memory as it is,
and then stores all values. -/
def assignWhole (p : Program) (a : Assignment) (mem : Memory α) : Option (Memory α) := do
  let dst ← p.dst? a
  let values ← (indices dst.shape).mapM fun idx => do
    return (idx, ← (p.tree a.expr).eval (cellsOf mem) idx)
  values.foldlM (fun mem (idx, v) => storeAt mem dst idx v) mem

/-- Runs the assignments of a program, each as a whole. -/
def runWhole (p : Program) (mem : Memory α) : Option (Memory α) :=
  p.assignments.foldlM (fun mem a => p.assignWhole a mem) mem

end Program

end

/-- A memory has every declared tensor, with all elements that its shape asks for. No extent is
negative, and positions are machine words. -/
def Memory.Holds {α : Type} (mem : Memory α) (find : Symbols) : Prop :=
  ∀ name s, find name = some s → (∀ d ∈ s.shape, 0 ≤ d) ∧
    Shape.count s.shape ≤ 0x8000000000000000 ∧ ∃ t, mem.get? name = some t ∧ t.Full s.shape

theorem Memory.Holds.of_entries {α : Type} {mem : Memory α} {symbols : SymbolTable}
    (h : ∀ e ∈ symbols.table.entries, (∀ d ∈ e.2.shape, 0 ≤ d) ∧
      Shape.count e.2.shape ≤ 0x8000000000000000 ∧ ∃ t ∈ mem.get? e.1, t.Full e.2.shape) :
    mem.Holds symbols.find? := fun name s hs => h (name, s) (OrderedMap.mem_of_get? hs)

/-- Integer arithmetic, for programs without literals. -/
@[reducible] def Scalar.int : Scalar Int where
  zero := .ofNat 0
  add := Int.add
  sub := Int.sub
  mul := Int.mul
  div := Int.ediv
  literal _ := .ofNat 0

/-- Two programs mean the same on the tensors that both declare: from memories that hold the same
there, both run to the end and leave the same there. -/
def Program.SameMeaning (p p' : Program) : Prop :=
  ∀ {α : Type} [Scalar α] (mem mem' : Memory α), mem.Holds p.find → mem'.Holds p'.find →
    (∀ name s, p.find name = some s → p'.find name = some s → mem.get? name = mem'.get? name) →
    ∃ m m', p.runWhole mem = some m ∧ p'.runWhole mem' = some m' ∧
      ∀ name s, p.find name = some s → p'.find name = some s → m.get? name = m'.get? name

namespace Memory.Holds

variable {α : Type} {mem : Memory α} {find : Symbols}

theorem fits (h : mem.Holds find) : mem.Fits find.shapes := by
  intro name stored hstored
  obtain ⟨s, hs, rfl⟩ := Option.map_eq_some_iff.mp hstored
  exact (h name s hs).2.2

theorem countable (h : mem.Holds find) : find.shapes.Countable := by
  intro name stored hstored
  obtain ⟨s, hs, rfl⟩ := Option.map_eq_some_iff.mp hstored
  exact (h name s hs).2.1

theorem nonneg (h : mem.Holds find) {name : String} {s : Symbol} (hs : find name = some s) :
    ∀ d ∈ s.shape, 0 ≤ d := (h name s hs).1

/-- Memories that agree on the cells of a tensor hold the same tensor. -/
theorem get?_eq {mem' : Memory α} {find' : Symbols} (h : mem.Holds find) (h' : mem'.Fits find'.shapes)
    {m : Memory α} (hm : m.Fits find.shapes) {name : String} {s : Symbol} (hs : find name = some s)
    (hs' : find' name = some s)
    (hcells : ∀ sub, InRange s.shape sub → cellsOf m name sub = cellsOf mem' name sub) :
    m.get? name = mem'.get? name := by
  obtain ⟨t, ht, hfull⟩ := hm name s.shape (Symbols.shapes_eq hs)
  obtain ⟨t', ht', hfull'⟩ := h' name s.shape (Symbols.shapes_eq hs')
  rw [ht, ht']
  refine congrArg some (hfull.ext hfull' (h.nonneg hs) (h name s hs).2.1 fun sub hsub => ?_)
  simpa [cellsOf, ht, ht'] using hcells sub hsub

end Memory.Holds

/-! ## One assignment -/

section
variable {α : Type} [Scalar α] {N : NodeClass} {find : Symbols} {c : Clause}

/-- Storing the values that the tree had at the start, at some indices. -/
theorem Clause.Fits.stores_spec (h : c.Fits N find) (hS : find.shapes.Countable) {σ : Cells α}
    {f : List Int → α} {visits : List (List Int)}
    (hin : ∀ idx ∈ visits, InRange c.target.shape idx)
    (hf : ∀ idx ∈ visits, c.tree.eval σ idx = some (f idx)) {mem : Memory α}
    (hmem : mem.Fits find.shapes) (hcells : Cells.Agree find.shapes (cellsOf mem) σ) :
    ∃ mem', visits.foldlM (fun mem idx => storeAt mem c.target idx (f idx)) mem = some mem' ∧
      mem'.Fits find.shapes ∧ mem.Alters c.name mem' ∧
      Cells.Agree find.shapes (cellsOf mem') (c.stepOn (· ∈ visits) σ) := by
  refine foldlM_invariant (f := fun mem idx => storeAt mem c.target idx (f idx))
    (fun done mem' => Memory.Fits find.shapes mem' ∧ mem.Alters c.name mem' ∧
      Cells.Agree find.shapes (cellsOf mem') (c.stepOn (· ∈ done) σ)) ⟨hmem, .refl _ _, ?_⟩ ?_
  · rwa [Clause.stepOn_nil]
  intro done idx rest mem₁ hvisits hdone
  have hmem' : idx ∈ visits := by simp [hvisits]
  obtain ⟨hmem₁, halters₁, hcells₁⟩ := hdone
  obtain ⟨mem₂, hstore, hmem₂, halters₂, hcells₂⟩ := h.store_spec hmem₁ hS (hin idx hmem') (f idx)
  refine ⟨mem₂, hstore, hmem₂, halters₁.trans halters₂, hcells₂.trans ?_⟩
  rw [← Clause.stepOn_put (hf idx hmem')]
  exact hcells₁.put c.target idx _

/-- An assignment gives its destination the values that its tree had beforehand. -/
theorem Program.Laid.assignWhole_spec (hN : N.Sized) {p : Program} {cs : List Clause} (hlaid : p.Laid cs)
    (hc : c ∈ cs) (h : c.Fits N find) (hS : find.shapes.Countable) {σ : Cells α} {mem : Memory α}
    (hmem : mem.Fits find.shapes) (hcells : Cells.Agree find.shapes (cellsOf mem) σ) :
    ∃ mem', p.assignWhole c.assignment mem = some mem' ∧ mem'.Fits find.shapes ∧
      mem.Alters c.name mem' ∧ Cells.Agree find.shapes (cellsOf mem') (c.step σ) := by
  have hvalues : ∀ idx ∈ indices c.target.shape, ∃ v, c.tree.eval (cellsOf mem) idx = some v :=
    fun idx hidx => Option.isSome_iff_exists.mp
      (hmem.eval_isSome hN hS h.typed (h.shape ▸ mem_indices.mp hidx))
  let f : List Int → α := fun idx => (c.tree.eval (cellsOf mem) idx).getD 0
  have hf : ∀ idx ∈ indices c.target.shape, c.tree.eval (cellsOf mem) idx = some (f idx) := by
    intro idx hidx
    obtain ⟨v, hv⟩ := hvalues idx hidx
    simp only [f, hv, Option.getD_some]
  have hmapM : (indices c.target.shape).mapM (fun idx => do
      return (idx, ← c.tree.eval (cellsOf mem) idx)) =
        some ((indices c.target.shape).map fun idx => (idx, f idx)) :=
    mapM_eq_some_map fun idx hidx => by rw [hf idx hidx]; rfl
  obtain ⟨mem', hrun, hmem', halters, hcells'⟩ :=
    h.stores_spec hS (fun idx hidx => mem_indices.mp hidx) hf hmem (.refl _)
  refine ⟨mem', ?_, hmem', halters, ?_⟩
  · rw [Program.assignWhole, hlaid.dst?_eq hc, Option.bind_eq_bind, Option.bind_some,
      show c.assignment.expr = c.tree.root from rfl, hlaid.tree_eq hc, hmapM, Option.bind_eq_bind,
      Option.bind_some, List.foldlM_map]
    exact hrun
  · rw [Clause.stepOn_eq_step fun idx hidx => mem_indices.mpr hidx] at hcells'
    exact hcells'.trans (hcells.step hN h)

/-- A program run by whole assignments does what its clauses do. -/
theorem Program.Laid.runWhole_spec (hN : N.Sized) {p : Program} {cs : List Clause} (hlaid : p.Laid cs)
    (hfits : ∀ c ∈ cs, c.Fits N find) (hS : find.shapes.Countable) {mem : Memory α}
    (hmem : mem.Fits find.shapes) :
    ∃ m, p.runWhole mem = some m ∧ m.Fits find.shapes ∧
      Cells.Agree find.shapes (cellsOf m) (runClauses cs (cellsOf mem)) := by
  have hrest : ∀ (rest : List Clause), (∀ c ∈ rest, c ∈ cs) → ∀ (σ : Cells α) (mem : Memory α),
      mem.Fits find.shapes → Cells.Agree find.shapes (cellsOf mem) σ →
      ∃ m, (rest.map Clause.assignment).foldlM (fun mem a => p.assignWhole a mem) mem = some m ∧
        m.Fits find.shapes ∧ Cells.Agree find.shapes (cellsOf m) (runClauses rest σ) := by
    intro rest
    induction rest with
    | nil => exact fun _ σ mem hmem hcells => ⟨mem, rfl, hmem, hcells⟩
    | cons c rest ih =>
      intro hsub σ mem hmem hcells
      rw [List.forall_mem_cons] at hsub
      obtain ⟨mem₁, hrun₁, hmem₁, -, hcells₁⟩ :=
        hlaid.assignWhole_spec hN hsub.1 (hfits c hsub.1) hS hmem hcells
      obtain ⟨m, hrun, hm, hcells⟩ := ih hsub.2 _ mem₁ hmem₁ hcells₁
      refine ⟨m, ?_, hm, hcells⟩
      rw [List.map_cons, List.foldlM_cons, hrun₁]
      exact hrun
  rw [runWhole, hlaid.assignments]
  exact hrest cs (fun _ h => h) _ mem hmem (.refl _)

end

/-! ## Refinement -/

theorem NodeClass.sized_extents (R : Nat → Prop) : (NodeClass.extents (0 ≤ ·) R).Sized :=
  fun _ h => h.1

/-- A program that refines another one leaves the same in the tensors that both declare. -/
theorem Refines.runWhole_eq {α : Type} [Scalar α] {N : NodeClass} {p p' : Program}
    {cs cs' : List Clause} (h : Refines N p cs p' cs') (hN : N.Sized) (hlaid : p.Laid cs)
    (hfits : ∀ c ∈ cs, c.Fits N p.find) (hshows' : p'.Shows N cs') {mem mem' : Memory α}
    (hmem : mem.Holds p.find) (hmem' : mem'.Holds p'.find)
    (hsame : ∀ name s, p.find name = some s → p'.find name = some s →
      mem.get? name = mem'.get? name) :
    ∃ m m', p.runWhole mem = some m ∧ p'.runWhole mem' = some m' ∧
      ∀ name s, p.find name = some s → p'.find name = some s → m.get? name = m'.get? name := by
  obtain ⟨m, hrun, hm, hcells⟩ := hlaid.runWhole_spec hN hfits hmem.countable hmem.fits
  obtain ⟨m', hrun', hm', hcells'⟩ :=
    hshows'.laid.runWhole_spec hN hshows'.fits hmem'.countable hmem'.fits
  refine ⟨m, m', hrun, hrun', fun name s hs hs' => ?_⟩
  refine hmem.get?_eq hm' hm hs hs' fun sub hsub => ?_
  -- both programs are compared on one set of cells: those of the first, and new tensors of the second
  let σ : Cells α := fun name => if (p.find name).isSome then cellsOf mem name else cellsOf mem' name
  have hσ : Cells.Agree p.find.shapes (cellsOf mem) σ := by
    intro name stored sub hstored _
    obtain ⟨s, hs, -⟩ := Option.map_eq_some_iff.mp hstored
    simp only [σ, hs, Option.isSome_some, if_true]
  have hσ' : Cells.Agree p'.find.shapes (cellsOf mem') σ := by
    intro name stored sub hstored _
    obtain ⟨s, hs', -⟩ := Option.map_eq_some_iff.mp hstored
    cases hs : p.find name with
    | none => simp only [σ, hs, Option.isSome_none, Bool.false_eq_true, if_false]
    | some s₀ =>
      have heq : s₀ = s := by
        rcases h.kept name s₀ hs with hkept | ⟨-, hnone, -⟩
        · exact Option.some.inj (hkept.symm.trans hs')
        · rw [hnone] at hs'
          cases hs'
      subst heq
      simp only [σ, hs, Option.isSome_some, if_true, cellsOf, hsame name s₀ hs hs']
  have hS := Symbols.shapes_eq hs
  have hS' := Symbols.shapes_eq hs'
  rw [hcells name s.shape sub hS hsub, hcells' name s.shape sub hS' hsub,
    hσ.runClauses hN hfits name s.shape sub hS hsub,
    hσ'.runClauses hN hshows'.fits name s.shape sub hS' hsub, h.run hN σ name s hs hs']

/-- What a pass makes of an accepted program means the same, when it refines the program in the class
of nodes without negative extents. -/
theorem Program.Accepted.sameMeaning {p p' : Program} {R : Nat → Prop} (h : p.Accepted)
    (hsymbols : ∀ name s, p.find name = some s → R s.shape.length)
    (hnodes : ∀ (id : NodeId) (n : Node), p.nodes[id]? = some n → R n.shape.length)
    (hpass : (∀ name s, p.find name = some s → (NodeClass.extents (0 ≤ ·) R).Mem s.shape) →
      (∀ c ∈ p.clauses, ∀ n ∈ c.tree.labels, (NodeClass.extents (0 ≤ ·) R).Admits n) →
      ∃ cs', p'.Shows (.extents (0 ≤ ·) R) cs' ∧
        Refines (.extents (0 ≤ ·) R) p p.clauses p' cs') : p.SameMeaning p' := by
  intro α _ mem mem' hmem hmem' hsame
  have hnonneg : ∀ name s, p.find name = some s → ∀ d ∈ s.shape, 0 ≤ d := fun name s hs => hmem.nonneg hs
  have hadmits := h.admits Int.natCast_nonneg hnonneg hnodes
  obtain ⟨cs', hshows', href⟩ := hpass (fun name s hs => ⟨hnonneg name s hs, hsymbols name s hs⟩) hadmits
  exact href.runWhole_eq (NodeClass.sized_extents R) h.laid (h.fits hadmits) hshows' hmem hmem' hsame

end LoopNest
