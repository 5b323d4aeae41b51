import LoopNest.Proofs.Correctness
import LoopNest.Proofs.Pass.Settled

/-!
# The stages of lowering

Each pass leaves a program in which it finds nothing more to do: run once more at its place, it
changes neither the assignments nor the table of nodes, the symbols or the names in use
(`passes_idempotent`). The tensors that the passes add are written once, in one piece or slice by
slice, before anything reads them, and what is not a copy of an overwritten tensor is read once
(`synthesized_single`). Their names are new, also with respect to tensors that were removed
(`fresh_names_spare`).
-/

namespace LoopNest

open Pass
open Typed (Expr)

variable {K : ShapeClass} {p : Typed.Program} {q₀ q₁ q₂ q₃ q₄ : Program} {cs₁ cs₂ cs₃ cs₄ : List Clause}

/-! ## A second run -/

/-- `a = transpose(stack(contract(a, [0], x, [0]), contract(a, [1], x, [0])), [(0,1)]) +
transpose(a + outer(x, x), [(0,1)])`, where each pass has something to do. -/
def layered : Typed.Program where
  name := "layered"
  decls := [⟨"x", [2], .input⟩, ⟨"a", [2, 2], .inout⟩]
  stmts :=
    let a : Expr := .ident "a" [2, 2]
    let x : Expr := .ident "x" [2]
    let sums : Expr := .stack [.contract a [0] x [0], .contract a [1] x [0]]
    let sum : Expr := .binary .add a (.product x x)
    [{ dst := "a", expr := .binary .add (.transpose sums [⟨0, 1⟩]) (.transpose sum [⟨0, 1⟩]) }]

theorem layered_valid : layered.Valid := rfl

theorem layered_coherent : layered.Coherent := by
  intro label e e' he
  simp [layered, Expr.parts, Expr.partsAll] at he

/-- Every pass of the pipeline, run again on what it has just left, succeeds and changes nothing. -/
theorem passes_idempotent (hvalid : p.Valid) (hcoh : p.Coherent) :
    ∃ q₀ q₁ q₂ q₃ q₄, build p = .ok q₀ ∧
      lift contractionOrStack q₀ = .ok () q₁ ∧ lift contractionOrStack q₁ = .ok () q₁ ∧
      unstack q₁ = .ok () q₂ ∧ unstack q₂ = .ok () q₂ ∧
      aliasCopy q₂ = .ok () q₃ ∧ aliasCopy q₃ = .ok () q₃ ∧
      untranspose q₃ = .ok () q₄ ∧ untranspose q₄ = .ok () q₄ := by
  obtain ⟨q₀, q₁, q₂, q₃, q₄, cs₁, cs₂, cs₃, cs₄, h⟩ :=
    stages_spec hvalid hcoh (Typed.Program.Valid.checked hvalid p.within_positive)
  have hlift := lift_settled h.lifted.shows h.lifted.sound.verified h.rooted
  have hunstack := unstack_settled h.unstacked.shows h.unstacked.sound.verified
    selectsStacks_contractionOrStack h.flat
  have hcopy := aliasCopy_settled h.copied.shows h.copied.sound.verified h.compatible
  have huntranspose := untranspose_settled h.untransposed.shows h.untransposed.sound.verified
    selectsStacks_contractionOrStack (fun c hc => (h.direct c hc).flat)
    fun c hc => (h.direct c hc).unturned
  exact ⟨q₀, q₁, q₂, q₃, q₄, h.build_run, h.lift_run, hlift, h.unstack_run, hunstack,
    h.aliasCopy_run, hcopy, h.untranspose_run, huntranspose⟩

/-- The passes leave a program alone that they have moved sums, stacks and copies out of. -/
theorem passes_idempotent_layered : layered.Valid ∧ layered.Coherent ∧
    ∃ q₀ q₁ q₂ q₃ q₄, build layered = .ok q₀ ∧
      lift contractionOrStack q₀ = .ok () q₁ ∧ lift contractionOrStack q₁ = .ok () q₁ ∧
      unstack q₁ = .ok () q₂ ∧ unstack q₂ = .ok () q₂ ∧
      aliasCopy q₂ = .ok () q₃ ∧ aliasCopy q₃ = .ok () q₃ ∧
      untranspose q₃ = .ok () q₄ ∧ untranspose q₄ = .ok () q₄ :=
  ⟨layered_valid, layered_coherent, passes_idempotent layered_valid layered_coherent⟩

/-! ## Definitions and reads -/

/-- The elements of a tensor that an identifier stands for. -/
def Node.Selects (n : Node) (sub : List Int) : Prop :=
  ∃ idx, InRange n.shape idx ∧ n.subscript id idx = some sub

theorem Node.selects_iff {n : Node} {sub : List Int} : n.Selects sub ↔ (n.own? sub).isSome := by
  simp only [Selects, Option.isSome_iff_exists, own?_eq_some_iff, and_comm]

namespace Program

/-- The assignment at position `i` writes to the tensor, at the destination `n`. -/
def Defines (p : Program) (name : String) (i : Nat) (n : Node) : Prop :=
  ∃ a, p.assignments[i]? = some a ∧ p.dst? a = some n ∧ n.name = name

/-- The expression of the assignment at position `i` reads the tensor. -/
def ReadsAt (p : Program) (name : String) (i : Nat) : Prop :=
  ∃ a, p.assignments[i]? = some a ∧ name ∈ (p.tree a.expr).names

/-- How often the expressions of a program read a tensor. -/
def readCount (p : Program) (name : String) : Nat :=
  (p.assignments.flatMap fun a => (p.tree a.expr).names).count name

/-- A tensor is written once. Either one assignment writes all of it, or each one that writes to it
fixes some of the indices, not the same as another one. Every element is in the destination of
exactly one of them, and all of them come before everything that reads the tensor. -/
structure SingleAssigned (p : Program) (name : String) (stored : Shape) : Prop where
  parts : (∃ i n, p.Defines name i n ∧ n.fixed = [] ∧ n.perm = [] ∧ n.shape = stored ∧
      ∀ j m, p.Defines name j m → j = i) ∨
    (∀ i n, p.Defines name i n → n.fixed ≠ []) ∧
      ∀ i j n m, p.Defines name i n → p.Defines name j m → n.fixed = m.fixed → i = j
  covered : ∀ sub, InRange stored sub → ∃! i, ∃ n, p.Defines name i n ∧ n.Selects sub
  before : ∀ i n j, p.Defines name i n → p.ReadsAt name j → i < j

end Program

/-- The assignments of a program are those of clauses, one by one. -/
def Program.Follows (r : Program) (cs : List Clause) : Prop :=
  List.Forall₂ r.Places r.assignments cs

namespace Program.Follows

variable {r : Program} {cs : List Clause} (h : r.Follows cs)

include h

theorem getElem? {i : Nat} {a : Assignment} (ha : r.assignments[i]? = some a) :
    ∃ c, cs[i]? = some c ∧ r.Places a c :=
  forall₂_getElem? h ha

theorem defines_iff {name : String} {i : Nat} {n : Node} :
    r.Defines name i n ↔ ∃ c, cs[i]? = some c ∧ c.target = n ∧ c.name = name := by
  constructor
  · rintro ⟨a, ha, hdst, rfl⟩
    obtain ⟨c, hc, hplaces⟩ := h.getElem? ha
    obtain rfl : c.target = n := Option.some.inj (hplaces.dst?_eq.symm.trans hdst)
    exact ⟨c, hc, rfl, rfl⟩
  · rintro ⟨c, hc, rfl, rfl⟩
    obtain ⟨a, ha, hplaces⟩ := forall₂_getElem? h.flip hc
    exact ⟨a, ha, Program.Places.dst?_eq hplaces, rfl⟩

theorem readsAt_iff {name : String} {i : Nat} :
    r.ReadsAt name i ↔ ∃ c, cs[i]? = some c ∧ name ∈ c.tree.names := by
  constructor
  · rintro ⟨a, ha, hread⟩
    obtain ⟨c, hc, hplaces⟩ := h.getElem? ha
    exact ⟨c, hc, hplaces.tree_eq ▸ hread⟩
  · rintro ⟨c, hc, hread⟩
    obtain ⟨a, ha, hplaces⟩ := forall₂_getElem? h.flip hc
    exact ⟨a, ha, (Program.Places.tree_eq hplaces).symm ▸ hread⟩

theorem readCount_eq (name : String) :
    r.readCount name = (cs.flatMap fun c => c.tree.names).count name := by
  have hnames : r.assignments.map (fun a => (r.tree a.expr).names) = cs.map fun c => c.tree.names := by
    rw [Program.Follows] at h
    generalize r.assignments = as at h
    induction h with
    | nil => rfl
    | cons hplaces _ ih => rw [List.map_cons, List.map_cons, ih, hplaces.tree_eq]
  rw [Program.readCount, List.flatMap_def, hnames, ← List.flatMap_def]

end Program.Follows

/-! ## Synthesized tensors -/

section
variable {exempt : String → Prop} {find : Symbols} {cs : List Clause} {c d : Clause} {s : Symbol}

/-- Two clauses at different positions write different parts of a synthesized tensor. -/
theorem Sound.apart_of_ne (h : Sound K find cs) {i j : Nat} (hc : cs[i]? = some c)
    (hd : cs[j]? = some d) (hne : i ≠ j) : Apart find c.target d.target := by
  have hlt : ∀ {i j : Nat} {c d : Clause}, cs[i]? = some c → cs[j]? = some d → i < j →
      Apart find c.target d.target := by
    intro i j c d hc hd hij
    have hpair := List.pairwise_iff_getElem.mp (List.pairwise_map.mp h.apart) i j
      (List.getElem?_eq_some_iff.mp hc).1 (List.getElem?_eq_some_iff.mp hd).1 hij
    rwa [(List.getElem?_eq_some_iff.mp hc).2, (List.getElem?_eq_some_iff.mp hd).2] at hpair
  rcases Nat.lt_or_gt_of_ne hne with hij | hij
  · exact hlt hc hd hij
  · exact (hlt hd hc hij).symm

/-- A synthesized tensor is written before the clause that reads it. -/
theorem Single.lt_of_reads (h : Single exempt find cs) (hsound : Sound K find cs)
    (hs : find d.name = some s) (hsynth : s.role.isSynthesized) {i j : Nat} (hd : cs[i]? = some d)
    (hc : cs[j]? = some c) (hread : d.name ∈ c.tree.names) : i < j := by
  by_contra hle
  rw [Nat.not_lt] at hle
  obtain ⟨hj, rfl⟩ := List.getElem?_eq_some_iff.mp hc
  have hsplit : cs.take j ++ cs[j] :: cs.drop (j + 1) = cs := by
    rw [← List.drop_eq_getElem_cons hj, List.take_append_drop]
  have hmem : d ∈ cs[j] :: cs.drop (j + 1) := by
    rw [← List.drop_eq_getElem_cons hj]
    refine List.mem_of_getElem? (i := i - j) ?_
    rw [List.getElem?_drop, Nat.add_sub_cancel' hle, hd]
  rw [← hsplit] at h hsound
  refine h.name_ne hsound ?_ hs hsynth hmem rfl
  exact hread

end

/-- Where the clauses of a program keep the invariants, synthesized tensors are written once. -/
theorem Program.Follows.singleAssigned {r : Program} {exempt : String → Prop} {find : Symbols}
    {cs : List Clause} {name : String} {s : Symbol} (h : r.Follows cs) (hsound : Sound K find cs)
    (hsingle : Single exempt find cs) (hs : find name = some s) (hsynth : s.role.isSynthesized) :
    r.SingleAssigned name s.shape := by
  have hperm : ∀ {i : Nat} {c : Clause}, cs[i]? = some c → c.name = name → c.target.perm = [] :=
    fun hc hname => hsingle.straight _ (List.mem_of_getElem? hc) s (hname ▸ hs) hsynth
  have hapart : ∀ {i j : Nat} {c d : Clause}, cs[i]? = some c → cs[j]? = some d → c.name = name →
      d.name = name → i ≠ j → ¬ c.target.fixed <+: d.target.fixed := by
    intro i j c d hc hd hcname hdname hne
    exact (hsound.apart_of_ne hc hd hne (hcname.trans hdname.symm) s
      (show find c.name = some s from hcname ▸ hs) hsynth).1
  refine ⟨?_, fun sub hsub => ?_, fun i n j hdef hread => ?_⟩
  · by_cases hwhole : ∃ (i : Nat) (c : Clause),
        cs[i]? = some c ∧ c.name = name ∧ c.target.fixed = []
    · obtain ⟨i, c, hc, hname, hfixed⟩ := hwhole
      obtain ⟨s', hs', hviews, -⟩ := (hsound.fits c (List.mem_of_getElem? hc)).declared
      cases hs.symm.trans (hname ▸ hs' : find name = some s')
      refine .inl ⟨i, c.target, h.defines_iff.mpr ⟨c, hc, rfl, hname⟩, hfixed, hperm hc hname,
        (Splits.stored_eq_shape hviews hfixed (hperm hc hname)).symm, fun j m hdef => ?_⟩
      obtain ⟨d, hd, rfl, hdname⟩ := h.defines_iff.mp hdef
      by_contra hne
      exact hapart hc hd hname hdname (Ne.symm hne) (hfixed ▸ List.nil_prefix)
    · refine .inr ⟨fun i n hdef hfixed => ?_, fun i j n m hn hm heq => ?_⟩
      · obtain ⟨c, hc, rfl, hname⟩ := h.defines_iff.mp hdef
        exact hwhole ⟨i, c, hc, hname, hfixed⟩
      · obtain ⟨c, hc, rfl, hcname⟩ := h.defines_iff.mp hn
        obtain ⟨d, hd, rfl, hdname⟩ := h.defines_iff.mp hm
        by_contra hne
        exact hapart hc hd hcname hdname hne (heq ▸ List.prefix_rfl)
  · obtain ⟨c₀, hc₀, hname₀⟩ := hsound.defined name s hs hsynth
    obtain ⟨n, hn, hname, hown⟩ := hsound.filled c₀ hc₀ s (hname₀ ▸ hs) sub hsub
    obtain ⟨c, hmem, rfl⟩ := List.mem_map.mp hn
    obtain ⟨i, hc⟩ := List.mem_iff_getElem?.mp hmem
    have hname : c.name = name := hname.trans hname₀
    refine ⟨i, ⟨c.target, h.defines_iff.mpr ⟨c, hc, rfl, hname⟩, Node.selects_iff.2 hown⟩, ?_⟩
    rintro j ⟨m, hdef, hsel⟩
    obtain ⟨d, hd, rfl, hdname⟩ := h.defines_iff.mp hdef
    by_contra hne
    have hdisjoint := (hsound.apart_of_ne hd hc hne).disjoint
      (show find d.name = some s from hdname ▸ hs) hsynth (hperm hd hdname) (hperm hc hname)
    rcases hdisjoint (hdname.trans hname.symm) sub with hnone | hnone
    · rw [Node.selects_iff, hnone] at hsel
      cases hsel
    · rw [hnone] at hown
      cases hown
  · obtain ⟨d, hd, rfl, rfl⟩ := h.defines_iff.mp hdef
    obtain ⟨c, hc, hmem⟩ := h.readsAt_iff.mp hread
    exact hsingle.lt_of_reads hsound hs hsynth hd hc hmem

theorem Lowered.follows {r q : Program} {cs : List Clause} (h : Lowered K p r q cs) : r.Follows cs := by
  obtain ⟨xs, hass, rfl, hplaces⟩ := h.paired
  rw [Program.Follows, hass, List.forall₂_map_left_iff, List.forall₂_map_right_iff,
    List.forall₂_same]
  exact hplaces

/-- The checks that every synthesized tensor is read once and that no node is shared pass where
nothing is exempt. -/
theorem Staged.verify_eq_none {q : Program} {cs : List Clause} (h : Staged K p (fun _ => False) q cs) :
    q.verify { singleUse := true, noSharing := true } = some none :=
  Program.verify_eq_none h.laid h.tidy h.sound.fits h.sound.verified
    (fun _ name s hs hsynth => h.single.once name s hs hsynth id) rfl (fun _ => h.unshared) (by simp)

/-- The checks for single use pass when sums and stacks have been moved out, and again when stacks
have been split. In the lowered program every synthesized tensor is written once, before it is read,
and read once if it is not a copy of an overwritten tensor. -/
theorem synthesized_single (hvalid : p.Valid) (hcoh : p.Coherent) (fuse : Bool) :
    ∃ q₀ q₁ q₂ q₃ r, build p = .ok q₀ ∧ lift contractionOrStack q₀ = .ok () q₁ ∧
      unstack q₁ = .ok () q₂ ∧ aliasCopy q₂ = .ok () q₃ ∧ lower p fuse = .ok r ∧
      q₁.verify { singleUse := true, noSharing := true } = some none ∧
      q₂.verify { singleUse := true, noSharing := true } = some none ∧
      ∀ name s, r.find name = some s → s.role.isSynthesized →
        r.SingleAssigned name s.shape ∧ (q₂.Added q₃ name ∨ r.readCount name = 1) := by
  obtain ⟨q₀, q₁, q₂, q₃, q₄, cs₁, cs₂, cs₃, cs₄, h⟩ :=
    stages_spec hvalid hcoh (Typed.Program.Valid.checked hvalid p.within_positive)
  obtain ⟨r, hlower, hlowered⟩ := h.lower_spec fuse
  refine ⟨q₀, q₁, q₂, q₃, r, h.build_run, h.lift_run, h.unstack_run, h.aliasCopy_run, hlower,
    h.lifted.verify_eq_none, h.unstacked.verify_eq_none, fun name s hs hsynth => ?_⟩
  have hfollows := hlowered.follows
  have hsingle := h.untransposed.single
  rw [hlowered.find_eq] at hs
  refine ⟨hfollows.singleAssigned h.untransposed.sound hsingle hs hsynth, ?_⟩
  rw [hfollows.readCount_eq]
  exact or_iff_not_imp_left.mpr (hsingle.once name s hs hsynth)

/-- The tensors for the sums of a stack and for a product that is transposed are read once. The old
value of the matrix is a copy. -/
theorem synthesized_single_layered : layered.Valid ∧ layered.Coherent ∧
    ∃ q₀ q₁ q₂ q₃ r, build layered = .ok q₀ ∧ lift contractionOrStack q₀ = .ok () q₁ ∧
      unstack q₁ = .ok () q₂ ∧ aliasCopy q₂ = .ok () q₃ ∧ lower layered true = .ok r ∧
      q₁.verify { singleUse := true, noSharing := true } = some none ∧
      q₂.verify { singleUse := true, noSharing := true } = some none ∧
      ∀ name s, r.find name = some s → s.role.isSynthesized →
        r.SingleAssigned name s.shape ∧ (q₂.Added q₃ name ∨ r.readCount name = 1) :=
  ⟨layered_valid, layered_coherent, synthesized_single layered_valid layered_coherent true⟩

/-! ## Fresh names -/

/-- Fresh names capture nothing. Whatever was registered or returned before, the search for a free
number ends, and the name that is returned is a new one. So from a program that was built, passes go
in steps, however many are run and whether they succeed or not, and along any such steps the taken
names are the declared ones and those handed out, all different, and no tensor is declared under the
name of a tensor that is there or of one that was removed. -/
theorem fresh_names_spare {p : Program} {t : Typed.Program} (hbuild : build t = .ok p)
    {runs : List (Edit Unit)} (hruns : ∀ e ∈ runs, Rewrites e) :
    (∀ s used, NameSupply.Reached s used → ∀ root,
      (∃ i, s.Finds root (s.nextOf root) i ∧ (s.fresh root).1 = NameSupply.numbered root i) ∧
      (s.fresh root).1 ∉ used ∧ (s.name root).1 ∉ used) ∧
    (∃ history, p.Steps history (Edit.afterAll runs p)) ∧
    ∀ history q, p.Steps history q →
      q.names.taken = (history.flatMap fun e => e.2.handedOut e.1).reverse ++ p.names.taken ∧
      q.names.taken.Nodup ∧ Program.Spares history := by
  refine ⟨fun s used hs root => ⟨⟨_, s.finds_firstFree root, rfl⟩, hs.unused root⟩,
    (Edit.afterAll_leads (fun e he => (hruns e he).makes) p).steps.imp fun _ h => h.1,
    fun history q hsteps => ?_⟩
  have hnodup : q.names.taken.Nodup :=
    hsteps.keeps (fun hnd hstep => hstep.taken_nodup hnd) (build_taken_nodup hbuild)
  exact ⟨hsteps.taken_eq, hnodup, hsteps.spares (build_tidy hbuild)⟩

/-- The passes run on a program in which each of them declares tensors, and stacks are removed. -/
theorem fresh_names_spare_layered : ∃ p history q, build layered = .ok p ∧
    q = Edit.afterAll [lift contractionOrStack, unstack, aliasCopy, untranspose] p ∧
    p.Steps history q ∧ q.names.taken.Nodup ∧ Program.Spares history := by
  obtain ⟨p, -, hbuild, -⟩ := build_spec layered_valid layered_coherent
    (Typed.Program.Valid.checked layered_valid layered.within_positive)
  have hruns : ∀ e ∈ [lift contractionOrStack, unstack, aliasCopy, untranspose], Rewrites e := by
    simp only [List.forall_mem_cons, List.not_mem_nil, false_imp_iff, implies_true, and_true]
    exact ⟨.lift _, .unstack, .aliasCopy, .untranspose⟩
  obtain ⟨-, ⟨history, hsteps⟩, hall⟩ := fresh_names_spare hbuild hruns
  obtain ⟨-, hnodup, hspares⟩ := hall history _ hsteps
  exact ⟨p, history, _, hbuild, rfl, hsteps, hnodup, hspares⟩

end LoopNest
