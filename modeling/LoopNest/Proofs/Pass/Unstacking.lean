import LoopNest.Proofs.Pass.Lifting
import LoopNest.Proofs.Pass.Slicing

/-!
# Elimination of stacks

`unstack` succeeds when stacks and contractions only stand at the roots of assignments, and leaves
no stack (`unstack_spec`). Either some member of a stack reads the destination: then nothing is
renamed, the members that read it are computed beforehand and the rest is split. Or none does: then
the stack is split, and the copies of renamed tensors go away one by one.
-/

namespace LoopNest.Pass

variable {N : NodeClass} {p : Program} {all : List Clause}

/-! ## Renamable members -/

/-- The search for the only definition of a tensor. -/
theorem soleDefinition_spec (h : p.Laid all) {cs : List Clause} (hcs : ∀ c ∈ cs, c ∈ all)
    (i : Nat) (name : String) (j : Nat) (defn : Option Nat) (uses : Nat) :
    ∃ res, soleDefinition p i name j defn uses (cs.map Clause.assignment) = some res ∧
      ∀ d u, res = some (d, u) → u = uses + (cs.flatMap (·.tree.names)).count name ∧
        (d = defn ∧ (∀ c ∈ cs, c.name ≠ name) ∨
          defn = none ∧ ∃ l c r, cs = l ++ c :: r ∧ c.name = name ∧ d = some (j + l.length) ∧
            j + l.length < i ∧ ∀ e ∈ l ++ r, e.name ≠ name) := by
  induction cs generalizing j defn uses with
  | nil =>
    refine ⟨_, rfl, ?_⟩
    rintro d u ⟨⟩
    exact ⟨by simp, .inl ⟨rfl, by simp⟩⟩
  | cons c cs ih =>
    have hc := hcs c (.head _)
    obtain ⟨is, his, hcount⟩ := (h.stored c hc).countP_idents name
    rw [← h.tree_eq hc] at his
    rw [List.map_cons, soleDefinition, h.dst?_eq hc]
    simp only [Option.bind_eq_bind, Option.bind_some, Clause.assignment, his, hcount, Option.pure_def]
    by_cases hdef : c.name = name
    · simp only [hdef, beq_self_eq_true, Bool.true_and, if_true]
      split
      · exact ⟨none, rfl, by simp⟩
      · rename_i hfirst
        simp only [Bool.or_eq_true, decide_eq_true_eq, not_or, Nat.not_le,
          Option.not_isSome_iff_eq_none] at hfirst
        obtain ⟨res, hres, hspec⟩ := ih (fun d hd => hcs d (List.mem_cons_of_mem _ hd)) (j + 1)
          (some j) (uses + c.tree.names.count name)
        refine ⟨res, hres, fun d u hdu => ?_⟩
        obtain ⟨hu, ⟨rfl, hrest⟩ | ⟨hd, -⟩⟩ := hspec d u hdu
        · refine ⟨by simp [hu, Nat.add_assoc], .inr ⟨hfirst.1, [], c, cs, rfl, hdef, rfl, hfirst.2, ?_⟩⟩
          exact hrest
        · cases hd
    · simp only [beq_eq_false_iff_ne.mpr hdef, Bool.false_and, Bool.false_eq_true, if_false]
      obtain ⟨res, hres, hspec⟩ := ih (fun d hd => hcs d (List.mem_cons_of_mem _ hd)) (j + 1)
        defn (uses + c.tree.names.count name)
      refine ⟨res, hres, fun d u hdu => ?_⟩
      obtain ⟨hu, hd⟩ := hspec d u hdu
      refine ⟨by simp [hu, Nat.add_assoc], hd.imp (fun hd => ⟨hd.1, ?_⟩) ?_⟩
      · exact List.forall_mem_cons.mpr ⟨hdef, hd.2⟩
      · rintro ⟨hnone, l, e, r, rfl, he, hpos, hlt, hrest⟩
        refine ⟨hnone, c :: l, e, r, rfl, he, ?_, ?_, List.forall_mem_cons.mpr ⟨hdef, hrest⟩⟩
        · rw [hpos, List.length_cons, Nat.add_assoc, Nat.add_comm 1]
        · rw [List.length_cons]
          omega

/-- The search for accesses to the destination. -/
theorem untouched_spec (h : p.Laid all) {cs : List Clause} (hcs : ∀ c ∈ cs, c ∈ all)
    (name : String) (first last j : Nat) :
    ∃ b, untouched p name first last j (cs.map Clause.assignment) = some b ∧
      (b = true → (∀ c ∈ cs, name ∉ c.tree.names) ∧
        ∀ k c, cs[k]? = some c → first < j + k → j + k < last → c.name ≠ name) := by
  induction cs generalizing j with
  | nil => exact ⟨true, rfl, fun _ => ⟨by simp, by simp⟩⟩
  | cons c cs ih =>
    have hc := hcs c (.head _)
    rw [List.map_cons, untouched, show (Clause.assignment c).expr = c.tree.root from rfl,
      h.tree_eq hc, (h.stored c hc).reads_eq, h.dst?_eq hc]
    simp only [Option.bind_eq_bind, Option.bind_some, decide_eq_true_eq, Option.pure_def]
    split
    · exact ⟨false, rfl, by simp⟩
    · rename_i hreads
      split
      · exact ⟨false, rfl, by simp⟩
      · rename_i hwrites
        obtain ⟨b, hb, hspec⟩ := ih (fun d hd => hcs d (List.mem_cons_of_mem _ hd)) (j + 1)
        refine ⟨b, hb, fun htrue => ?_⟩
        obtain ⟨hr, hw⟩ := hspec htrue
        refine ⟨List.forall_mem_cons.mpr ⟨hreads, hr⟩, fun k d hk hlo hhi => ?_⟩
        cases k with
        | zero =>
          cases hk
          rintro rfl
          simp [show first < j from hlo, show j < last from hhi] at hwrites
        | succ k => exact hw k d hk (by omega) (by omega)

/-- A member `n` of the stack of `c` that need not be copied: it is a whole tensor that `d` defines
and that is not used otherwise, and from `d` on the destination of `c` is not used. -/
structure Renamable (find : Symbols) (l₁ l₂ r : List Clause) (d c : Clause) (n : Node) : Prop where
  kind : n.kind = .identifier
  fixed : n.fixed = []
  perm : n.perm = []
  synthesized : ∃ s, find n.name = some s ∧ s.role.isSynthesized
  name : d.name = n.name
  fixed_dst : d.target.fixed = []
  perm_dst : d.target.perm = []
  sole : ∀ e ∈ l₁ ++ (l₂ ++ ([c] ++ r)), e.name ≠ n.name
  once : ((l₁ ++ d :: l₂ ++ ([c] ++ r)).flatMap (·.tree.names)).count n.name = 1
  unread : ∀ e ∈ d :: l₂ ++ [c], c.name ∉ e.tree.names
  unwritten : ∀ e ∈ l₂, e.name ≠ c.name

theorem renamable_spec {l r : List Clause} {c : Clause} (h : p.Laid (l ++ ([c] ++ r))) {m : NodeId}
    {n : Node} (hm : p.nodes[m]? = some n) :
    ∃ res, renamable p l.length m c.name = some res ∧ ∀ j, res = some j →
      ∃ l₁ d l₂, l = l₁ ++ d :: l₂ ∧ j = l₁.length ∧ Renamable p.find l₁ l₂ r d c n := by
  unfold renamable
  simp only [Program.node?, hm, Option.bind_eq_bind, Option.bind_some, Option.pure_def]
  split
  · exact ⟨none, rfl, by simp⟩
  rename_i hwhole
  simp only [ne_eq, decide_not, Bool.or_eq_true, Bool.not_eq_true', decide_eq_false_iff_not,
    List.isEmpty_eq_false_iff, not_or, Decidable.not_not] at hwhole
  cases hfind : p.symbols.find? n.name with
  | none => exact ⟨none, rfl, by simp⟩
  | some s =>
    simp only
    split
    · exact ⟨none, rfl, by simp⟩
    rename_i hsynth
    obtain ⟨res, hres, hspec⟩ := soleDefinition_spec h (fun _ hc => hc) l.length n.name 0 none 0
    rw [← h.assignments] at hres
    rw [hres, Option.bind_some]
    split
    · rename_i j hj
      obtain ⟨hcount, ⟨hnone, -⟩ | ⟨-, l₁, d, r₁, heq, hname, hpos, hlt, hrest⟩⟩ := hspec _ _ rfl
      · cases hnone
      cases hpos
      rw [Nat.zero_add] at hlt ⊢
      obtain ⟨l₂, rfl, rfl⟩ : ∃ l₂, l = l₁ ++ d :: l₂ ∧ r₁ = l₂ ++ ([c] ++ r) := by
        rcases List.append_eq_append_iff.mp heq with ⟨a, rfl, -⟩ | ⟨a, rfl, ha⟩
        · rw [List.length_append] at hlt
          omega
        · cases a with
          | nil => simp at hlt
          | cons e a =>
            cases ha
            exact ⟨a, rfl, rfl⟩
      have hd : p.assignments[l₁.length]? = some d.assignment := by simp [h.assignments]
      rw [hd, Option.bind_some, h.dst?_eq (by simp), Option.bind_some]
      split
      · exact ⟨none, rfl, by simp⟩
      rename_i hdst
      simp only [Bool.or_eq_true, Bool.not_eq_true', List.isEmpty_eq_false_iff, not_or,
        Decidable.not_not] at hdst
      have hpart : (p.assignments.take ((l₁ ++ d :: l₂).length + 1)).drop l₁.length =
          (d :: l₂ ++ [c]).map Clause.assignment := by
        rw [h.assignments, ← List.map_take, ← List.map_drop]
        congr 1
        rw [← List.append_assoc, List.take_left' (by simp; omega)]
        simp
      have hsub : ∀ e ∈ d :: l₂ ++ [c], e ∈ l₁ ++ d :: l₂ ++ ([c] ++ r) := by
        simp only [List.mem_append, List.mem_cons]
        tauto
      obtain ⟨b, hb, huntouched⟩ := untouched_spec h hsub c.name l₁.length
        (l₁ ++ d :: l₂).length l₁.length
      rw [hpart, hb, Option.bind_some]
      split
      · rename_i htrue
        obtain ⟨hreads, hwrites⟩ := huntouched htrue
        refine ⟨_, rfl, ?_⟩
        rintro _ ⟨⟩
        refine ⟨l₁, d, l₂, rfl, rfl, hwhole.1.1, hwhole.1.2, hwhole.2, ⟨s, hfind, by simpa using hsynth⟩,
          hname, hdst.1, hdst.2, hrest, by simpa using hcount.symm, hreads, ?_⟩
        intro e he
        obtain ⟨k, hk⟩ := List.mem_iff_getElem?.mp he
        have hlt := (List.getElem?_eq_some_iff.mp hk).1
        refine hwrites (k + 1) e ?_ (by omega) (by simp; omega)
        simp [List.getElem?_append_left hlt, hk]
      · exact ⟨none, rfl, by simp⟩
    · exact ⟨none, rfl, by simp⟩

/-! ## Stacks whose members do not read the destination -/

/-- The clause that writes member `k` to its slice, with the next node as its destination. -/
@[reducible] def sliced (p : Program) (c : Clause) (k : Nat) (t : Tree) : Clause :=
  { dst := p.nodes.size, target := slice c.target k t.shape, tree := t }

/-- The clauses of the members that are left, with the numbers that their destinations will get. -/
def pending (p : Program) (c : Clause) (k : Nat) (ts : List Tree) : List Clause :=
  slices c.target k (ts.zipIdx p.nodes.size)

/-- The state of the split of a stack. The members `pre` are done, and `out` are the clauses of
those that were not renamed. The clauses of the program are still those with the stack, but the
program stands for the ones where the stack is split. -/
structure Splits (N : NodeClass) (p : Program) (l out r : List Clause) (c : Clause)
    (pre ts : List Tree) : Prop where
  laid : p.Laid (l ++ ([c] ++ r))
  tidy : p.Tidy
  symbols : ∀ name s, p.find name = some s → N.Mem s.shape
  label : ∃ id label, c.tree = .node id label (pre ++ ts) ∧ label.kind = .stack
  shape : ∃ shape, c.target.shape = ((pre ++ ts).length : Int) :: shape ∧
    ∀ t ∈ pre ++ ts, t.shape = shape
  reads : ∀ t ∈ pre ++ ts, c.name ∉ t.names
  done : ∀ e ∈ out, p.nodes[e.dst]? = some e.target ∧ e.tree ∈ pre ∧
    ∃ i < pre.length, e.target = slice c.target i e.tree.shape
  fits : ∀ e ∈ l ++ ((out ++ pending p c pre.length ts) ++ r), e.Fits N p.find
  unshared : Unshared (l ++ ((out ++ pending p c pre.length ts) ++ r))

theorem pending_cons (p : Program) (c : Clause) (k : Nat) (t : Tree) (ts : List Tree) :
    pending p c k (t :: ts) = sliced p c k t ::
      slices c.target (k + 1) (ts.zipIdx (p.nodes.size + 1)) := rfl

theorem pending_add (p : Program) (c : Clause) (k : Nat) (t : Tree) (ts : List Tree) (view : Node) :
    pending p c k (t :: ts) = sliced p c k t ::
      pending (p.add view).2 c (k + 1) ts := by
  simp [pending, slices, Program.add]

theorem mem_slices_zipIdx {c e : Clause} {k base : Nat} {ts : List Tree}
    (h : e ∈ slices c.target k (ts.zipIdx base)) : e.tree ∈ ts ∧ e.name = c.name := by
  obtain ⟨i, m, hm, rfl⟩ := mem_slices h
  rw [List.getElem?_zipIdx, Option.map_eq_some_iff] at hm
  obtain ⟨t, ht, rfl⟩ := hm
  exact ⟨List.mem_of_getElem? ht, rfl⟩

namespace Splits

variable {l out r : List Clause} {c : Clause} {pre ts : List Tree} {t : Tree} {n : Node}

theorem storedIn (h : Splits N p l out r c pre ts) : ∀ t ∈ pre ++ ts, t.StoredIn p.nodes := by
  obtain ⟨id, label, hc, -⟩ := h.label
  intro t ht
  have hstored := h.laid.stored c (by simp)
  rw [hc] at hstored
  exact hstored.operand ht

/-- A renamed member is used nowhere else. -/
theorem unused {l₁ l₂ : List Clause} {d : Clause} (h : Splits N p (l₁ ++ d :: l₂) out r c pre (t :: ts))
    (hren : Renamable p.find l₁ l₂ r d c n) (ht : t.names = [n.name]) :
    (∀ e ∈ l₁ ++ d :: l₂ ++ r, n.name ∉ e.tree.names) ∧ ∀ u ∈ pre ++ ts, n.name ∉ u.names := by
  obtain ⟨id, label, hc, hkind⟩ := h.label
  have honce := hren.once
  simp only [hc, Tree.names_node, hkind, List.flatMap_append, List.flatMap_cons, List.flatMap_nil, ht,
    List.count_append, List.count_cons_self, List.count_nil, reduceCtorEq, if_false,
    List.nil_append] at honce
  have hzero : ∀ {β : Type} {f : β → List String} {us : List β}, (us.flatMap f).count n.name = 0 →
      ∀ u ∈ us, n.name ∉ f u := fun hcount u hu hmem =>
    List.count_eq_zero.mp hcount (List.mem_flatMap.mpr ⟨u, hu, hmem⟩)
  constructor
  · refine hzero (f := fun e : Clause => e.tree.names) ?_
    rw [List.flatMap_append, List.flatMap_append, List.flatMap_cons]
    simp only [List.count_append]
    omega
  · refine hzero ?_
    rw [List.flatMap_append, List.count_append]
    omega

/-- The shape of a tensor that is read or written whole. -/
theorem stored_eq_shape {stored : Shape} (h : n.Views stored) (hfixed : n.fixed = [])
    (hperm : n.perm = []) : stored = n.shape := by
  obtain ⟨lead, hlead, hin⟩ := h
  rw [hfixed] at hin
  cases hin
  rw [hperm] at hlead
  exact Option.some.inj hlead

theorem renames {l₁ l₂ : List Clause} {d : Clause} {id : NodeId}
    (h : Splits N p (l₁ ++ d :: l₂) out r c pre (t :: ts)) (ht : t = .node id n [])
    (hren : Renamable p.find l₁ l₂ r d c n) :
    Renames n.name l₁ (l₂ ++ out) (slices c.target (pre.length + 1) (ts.zipIdx (p.nodes.size + 1)) ++ r)
      d (sliced p c pre.length t) := by
  have hnames : t.names = [n.name] := by simp [ht, Tree.names_node, hren.kind]
  obtain ⟨hunread, hothers⟩ := h.unused hren hnames
  obtain ⟨shape, hshape, hall⟩ := h.shape
  have hne : c.name ≠ n.name := hren.sole c (by simp)
  have hd := h.fits d (by simp)
  refine ⟨hren.name, hren.fixed_dst, hren.perm_dst, fun σ idx => ?_, ?_, hne, ?_, ?_, ?_, ?_⟩
  · show t.eval σ idx = σ n.name idx
    rw [ht, Tree.eval_ident hren.kind]
    simp [loadAt, Node.subscript, hren.fixed, hren.perm]
  · have hx := (h.fits (sliced p c pre.length t)
      (by simp [pending_cons])).typed
    simp only [ht] at hx
    obtain ⟨s, hs, hv, -⟩ := hd.declared
    rw [hren.name] at hs
    cases hx with
    | node _ hfit _ =>
      cases hfit with
      | identifier _ hS hview =>
        rw [Symbols.shapes_eq hs] at hS
        cases hS
        rw [← stored_eq_shape hv hren.fixed_dst hren.perm_dst,
          stored_eq_shape hview hren.fixed hren.perm, ht]
        rfl
      | constant hk _ => simp [hren.kind] at hk
  · intro e he
    simp only [List.mem_append, List.mem_cons] at he hunread hothers
    rcases he with he | rfl | (he | he) | he | he
    · exact hunread e (.inl (.inl he))
    · exact hunread e (.inl (.inr (.inl rfl)))
    · exact hunread e (.inl (.inr (.inr he)))
    · exact hothers _ (.inl (h.done e he).2.1)
    · exact hothers _ (.inr (mem_slices_zipIdx he).1)
    · exact hunread e (.inr he)
  · intro e he
    simp only [List.mem_append] at he
    rcases he with he | (he | he) | he | he
    · exact hren.sole e (by simp [he])
    · exact hren.sole e (by simp [he])
    · obtain ⟨-, -, i, -, htarget⟩ := h.done e he
      rw [Clause.name, htarget]
      exact hne
    · rw [(mem_slices_zipIdx he).2]
      exact hne
    · exact hren.sole e (by simp [he])
  · intro e he
    rcases List.mem_append.mp he with he | he
    · exact hren.unread e (by simp [he])
    · exact h.reads e.tree (List.mem_append_left _ (h.done e he).2.1)
  · intro e he
    rcases List.mem_append.mp he with he | he
    · exact fun heq => absurd heq (hren.unwritten e he)
    · obtain ⟨-, hpre, i, hi, htarget⟩ := h.done e he
      intro _ sub
      have hlen : (pre ++ t :: ts).length = pre.length + (ts.length + 1) := by simp
      show e.target.own? sub = none ∨ (slice c.target pre.length t.shape).own? sub = none
      rw [htarget, hall e.tree (by simp [hpre]), hall t (by simp)]
      cases hown : (slice c.target pre.length shape).own? sub with
      | none => exact .inr rfl
      | some idx => exact .inl (slice_disjoint hshape (by omega) (by omega) (by omega) hown)

/-- Dropping a synthesized tensor does not concern the others. -/
theorem retains_without {p' : Program} {cs cs' : List Clause} {name : String} (htidy : p.Tidy)
    (hsynth : ∃ s, p.find name = some s ∧ s.role.isSynthesized)
    (hfind : p'.find = p.find.without name) (hnames : p'.names = p.names)
    (hfusion : p'.fusion = p.fusion)
    (hrun : ∀ {α : Type} [Scalar α] (σ : Cells α) m, m ∉ [name] →
      runClauses cs' σ m = runClauses cs σ m)
    (hsound : ∀ {K : ShapeClass}, Sound K p.find cs → Sound K (p.find.without name) cs')
    (hloops : (∀ c ∈ cs, c.fuseAxis = none) → ∀ c ∈ cs', c.fuseAxis = none)
    (hsingle : KeepsSingle p.find cs (p.find.without name) cs') : Retains N p cs p' cs' := by
  obtain ⟨s, hs, hrole⟩ := hsynth
  refine ⟨?_, hfind ▸ hsingle⟩
  refine ⟨by rw [hnames]; exact List.Subset.refl _, hfusion, fun m s' hs' => ?_, fun m s' hs' => ?_,
    fun _ {α} _ σ m s' _ hs' => hrun σ m ?_, fun _ h => hfind ▸ hsound h, hloops⟩
  · rw [hfind, hnames]
    by_cases hm : m = name
    · subst hm
      rw [hs] at hs'
      cases hs'
      exact .inr ⟨hrole, if_pos rfl, htidy.mem_taken hs⟩
    · exact .inl ((Symbols.without_eq hm).trans hs')
  · rw [hfind] at hs'
    exact .inl (Symbols.of_without hs').2
  · rw [hfind] at hs'
    simpa using (Symbols.of_without hs').1

/-- The next member is copied into its slice. -/
theorem direct (h : Splits N p l out r c pre (t :: ts)) :
    Splits N (p.add (slice c.target pre.length t.shape)).2 l
      (out ++ [sliced p c pre.length t]) r c (pre ++ [t]) ts := by
  have hgrow := Program.Grows.push p (slice c.target pre.length t.shape)
  have hpend : out ++ pending p c pre.length (t :: ts) =
      (out ++ [sliced p c pre.length t]) ++
        pending (p.add (slice c.target pre.length t.shape)).2 c (pre ++ [t]).length ts := by
    rw [pending_add p c pre.length t ts (slice c.target pre.length t.shape)]
    simp
  have hmembers : pre ++ t :: ts = (pre ++ [t]) ++ ts := by simp
  refine ⟨⟨h.laid.assignments, fun d hd => hgrow.node_eq (h.laid.target d hd),
    fun d hd => hgrow.storedIn (h.laid.stored d hd)⟩, ⟨h.tidy.nodup, h.tidy.named, h.tidy.taken⟩,
    h.symbols, hmembers ▸ h.label, hmembers ▸ h.shape, hmembers ▸ h.reads, ?_, hpend ▸ h.fits,
    hpend ▸ h.unshared⟩
  intro e he
  rcases List.mem_append.mp he with he | he
  · obtain ⟨hdst, hpre, i, hi, htarget⟩ := h.done e he
    exact ⟨hgrow.node_eq hdst, by simp [hpre], i, by simp; omega, htarget⟩
  · rw [List.mem_singleton.mp he]
    exact ⟨Program.add_node p _, by simp, pre.length, by simp, rfl⟩

/-- The program after the destination of the definition of a member was changed. -/
def renamed (p : Program) (j : Nat) (name : String) (view : Node) : Program :=
  (({ p with symbols := p.symbols.remove name } : Program).add view).2.modifyAssignment j
    fun a => { a with dst := p.nodes.size }

theorem find_renamed (h : p.Tidy) (j : Nat) (name : String) (view : Node) :
    (renamed p j name view).find = p.find.without name :=
  funext fun name' => h.find_remove name name'

/-- The definition of the next member writes its slice. -/
theorem rename {l₁ l₂ : List Clause} {d : Clause} {id : NodeId}
    (h : Splits N p (l₁ ++ d :: l₂) out r c pre (t :: ts)) (ht : t = .node id n [])
    (hren : Renamable p.find l₁ l₂ r d c n) :
    Splits N (renamed p l₁.length n.name (slice c.target pre.length t.shape))
      (l₁ ++ retarget d (sliced p c pre.length t) :: l₂) out r c
      (pre ++ [t]) ts ∧
    Retains N p ((l₁ ++ d :: l₂) ++ ((out ++ pending p c pre.length (t :: ts)) ++ r))
      (renamed p l₁.length n.name (slice c.target pre.length t.shape))
      ((l₁ ++ retarget d (sliced p c pre.length t) :: l₂) ++
        ((out ++ pending (renamed p l₁.length n.name (slice c.target pre.length t.shape)) c
          (pre ++ [t]).length ts) ++ r)) := by
  have hrenames := h.renames ht hren
  generalize hx : sliced p c pre.length t = x at hrenames ⊢
  have hxdst : x.dst = p.nodes.size := by rw [← hx]
  have hxtarget : x.target = slice c.target pre.length t.shape := by rw [← hx]
  generalize hp' : renamed p l₁.length n.name (slice c.target pre.length t.shape) = p'
  have hnodes : p'.nodes = p.nodes.push (slice c.target pre.length t.shape) := by rw [← hp']; rfl
  have hold : ∀ i < p.nodes.size, p'.nodes[i]? = p.nodes[i]? := by
    intro i hi
    rw [hnodes, Array.getElem?_push, if_neg (Nat.ne_of_lt hi)]
  have hview : p'.nodes[x.dst]? = some x.target := by
    rw [hnodes, hxdst, hxtarget]
    simp
  have hnode : ∀ {i m}, p.nodes[i]? = some m → p'.nodes[i]? = some m := fun hm =>
    (hold _ (Array.getElem?_eq_some_iff.mp hm).1).trans hm
  have hfind : p'.find = p.find.without n.name := by
    rw [← hp']
    exact find_renamed h.tidy _ _ _
  have hmembers : pre ++ t :: ts = (pre ++ [t]) ++ ts := by simp
  have hrest : slices c.target (pre.length + 1) (ts.zipIdx (p.nodes.size + 1)) =
      pending p' c (pre ++ [t]).length ts := by
    rw [pending, hnodes, Array.size_push, List.length_append, List.length_singleton]
  have hbefore : (l₁ ++ d :: l₂) ++ ((out ++ pending p c pre.length (t :: ts)) ++ r) =
      l₁ ++ (d :: ((l₂ ++ out) ++ ([x] ++ (pending p' c (pre ++ [t]).length ts ++ r)))) := by
    rw [pending_cons, hrest, hx]
    simp
  have hafter : l₁ ++ (retarget d x :: ((l₂ ++ out) ++ (pending p' c (pre ++ [t]).length ts ++ r))) =
      (l₁ ++ retarget d x :: l₂) ++ ((out ++ pending p' c (pre ++ [t]).length ts) ++ r) := by simp
  rw [hrest] at hrenames
  have hfits := fits_rename (hbefore ▸ h.fits) hrenames
  have hunshared := ids_rename (hbefore ▸ h.unshared)
  rw [hafter, ← hfind] at hfits
  rw [hafter] at hunshared
  have hsplit : ∀ e : Clause, (l₁ ++ e :: l₂) ++ ([c] ++ r) = l₁ ++ ([e] ++ (l₂ ++ ([c] ++ r))) := by
    simp
  have hlaid := h.laid
  rw [hsplit] at hlaid
  refine ⟨⟨?_, ?_, fun m s hs => ?_, hmembers ▸ h.label, hmembers ▸ h.shape, hmembers ▸ h.reads,
    ?_, hfits, hunshared⟩, ?_⟩
  · rw [hsplit]
    refine hlaid.replace _ ?_ (fun e he i hi => hold i (hlaid.lt_size ?_ hi)) ?_
    · rw [← hp']
      show p.assignments.modify _ _ = _
      rw [hlaid.assignments, List.map_append, List.map_append, List.map_singleton,
        ← List.length_map (f := Clause.assignment), List.singleton_append, modify_append_cons, ← hxdst]
      simp [Clause.assignment, retarget]
    · simp only [List.mem_append] at he ⊢
      exact he.imp_right .inr
    · intro e he
      rw [List.mem_singleton.mp he]
      have hd := hlaid.stored d (by simp)
      exact ⟨hview, hd.frame fun i hi => hold i (hd.lt_size i hi)⟩
  · have htidy := h.tidy.remove n.name
    rw [← hp']
    exact ⟨htidy.nodup, htidy.named, htidy.taken⟩
  · rw [hfind] at hs
    exact h.symbols m s (Symbols.of_without hs).2
  · intro e he
    obtain ⟨hdst, hpre, i, hi, htarget⟩ := h.done e he
    exact ⟨hnode hdst, by simp [hpre], i, by simp; omega, htarget⟩
  · rw [hbefore, ← hafter]
    refine retains_without h.tidy hren.synthesized hfind (by rw [← hp']; rfl) (by rw [← hp']; rfl)
      (run_rename hrenames) (fun hs => sound_rename hs hrenames) (fun hl e he => ?_)
      (single_rename ?_)
    · simp only [List.mem_append, List.mem_cons] at he
      rcases he with he | rfl | he
      · exact hl e (by simp [he])
      · exact hl d (by simp)
      · exact hl e (by simp only [List.mem_append, List.mem_cons]; tauto)
    · rw [← hx]
      simp [ht, Tree.names_node, hren.kind]

end Splits

theorem memberView_run (p : Program) (dst : Node) (k : Nat) (shape : Shape) :
    memberView dst k shape p = .ok p.nodes.size (p.add (slice dst k shape)).2 := rfl

section

variable {i j k : Nat} {dst n : Node} {stack m : NodeId} {before after : List Assignment}
  {ms : List NodeId} {p : Program} (hn : p.nodes[m]? = some n) (hkind : n.kind ≠ .stack)
include hn hkind

/-- The definition of a member is made to write its slice. -/
theorem unstackMembers_rename (hres : renamable p i m dst.name = some (some j)) :
    unstackMembers i dst stack k before after (m :: ms) p =
      unstackMembers i dst stack (k + 1) before after ms
        (Splits.renamed p j n.name (slice dst k n.shape)) := by
  rw [unstackMembers]
  refine (Edit.bind_ok (Edit.node_run hn)).trans ?_
  rw [if_neg hkind]
  refine (Edit.bind_ok (Edit.query_run hres)).trans ?_
  refine (Edit.bind_ok (Edit.change_some_run _)).trans ?_
  refine (Edit.bind_ok (memberView_run _ _ _ _)).trans ?_
  exact Edit.bind_ok (Edit.change_some_run _)

/-- A member that does not read the destination is stored in its slice. -/
theorem unstackMembers_direct (hres : renamable p i m dst.name = some none)
    (hreads : (p.tree m).reads dst.name = some false) :
    unstackMembers i dst stack k before after (m :: ms) p =
      unstackMembers i dst stack (k + 1) before (after ++ [{ dst := p.nodes.size, expr := m }]) ms
        (p.add (slice dst k n.shape)).2 := by
  rw [unstackMembers]
  refine (Edit.bind_ok (Edit.node_run hn)).trans ?_
  rw [if_neg hkind]
  refine (Edit.bind_ok (Edit.query_run hres)).trans ?_
  refine (Edit.bind_ok (Edit.query_run hreads)).trans ?_
  exact Edit.bind_ok (memberView_run _ _ _ _)

end

/-- The members of a stack that does not read its destination. -/
theorem unstackMembers_split {l out r : List Clause} {c : Clause} {pre ts : List Tree} {p : Program}
    (h : Splits N p l out r c pre ts) (hkinds : ∀ t ∈ ts, t.kind ≠ .stack) (stack : NodeId) :
    ∃ p' l' out', unstackMembers l.length c.target stack pre.length [] (out.map Clause.assignment)
        (ts.map Tree.root) p = .ok ([], out'.map Clause.assignment) p' ∧
      Splits N p' l' out' r c (pre ++ ts) [] ∧
      Retains N p (l ++ ((out ++ pending p c pre.length ts) ++ r)) p' (l' ++ (out' ++ r)) ∧
      l'.map Clause.tree = l.map Clause.tree ∧
      ((∀ e ∈ l, e.ReadsOthers) → ∀ e ∈ l', e.ReadsOthers) := by
  induction ts generalizing p l out pre with
  | nil =>
    refine ⟨p, l, out, rfl, by simpa using h, ?_, rfl, id⟩
    rw [show pending p c pre.length [] = [] from rfl, List.append_nil]
    exact .refl _ _ _
  | cons t ts ih =>
    have hstored := h.storedIn t (by simp)
    obtain ⟨n, us, ht, hn⟩ := hstored.exists_node
    have hkind : n.kind ≠ .stack := by
      have := hkinds t (.head _)
      rwa [ht] at this
    have hshape : n.shape = t.shape := by rw [ht]; rfl
    obtain ⟨res, hres, hspec⟩ := renamable_spec h.laid hn
    have hkinds' : ∀ t ∈ ts, t.kind ≠ .stack := fun t ht => hkinds t (List.mem_cons_of_mem _ ht)
    have hassoc : pre ++ t :: ts = (pre ++ [t]) ++ ts := by simp
    rw [List.map_cons]
    cases res with
    | some j =>
      obtain ⟨l₁, d, l₂, rfl, rfl, hren⟩ := hspec j rfl
      have hleaf : us = [] := by
        have htyped := (h.fits (sliced p c pre.length t)
          (by simp [pending_cons])).typed
        rw [ht] at htyped
        exact htyped.operands_eq_nil hren.kind
      subst hleaf
      obtain ⟨hsplits, href⟩ := h.rename ht hren
      obtain ⟨p', l', out', hrun, hsplits', href', htrees, hothers⟩ := ih hsplits hkinds'
      refine ⟨p', l', out', ?_, hassoc ▸ hsplits', href.trans href', ?_, fun h => hothers fun e he => ?_⟩
      · rw [unstackMembers_rename hn hkind hres, hshape, ← hrun]
        simp only [List.length_append, List.length_cons, List.length_nil, Nat.zero_add]
      · rw [htrees]
        simp [retarget]
      · rcases List.mem_append.mp he with he | he
        · exact h e (by simp [he])
        · rcases List.mem_cons.mp he with rfl | he
          · exact hren.unread d (by simp)
          · exact h e (by simp [he])
    | none =>
      obtain ⟨p', l', out', hrun, hsplits', href', htrees, hothers⟩ := ih h.direct hkinds'
      refine ⟨p', l', out', ?_, hassoc ▸ hsplits', ?_, htrees, hothers⟩
      · have hreads : (p.tree t.root).reads c.name = some false := by
          rw [hstored.tree_eq, hstored.reads_eq]
          simpa using h.reads t (by simp)
        rw [unstackMembers_direct hn hkind hres hreads, hshape, ← hrun]
        simp only [List.length_append, List.length_cons, List.length_nil, Nat.zero_add,
          List.map_append, List.map_cons, List.map_nil]
        rfl
      · rw [pending_add p c pre.length t ts (slice c.target pre.length t.shape)]
        simp only [List.append_assoc, List.cons_append, List.nil_append, List.length_append,
          List.length_cons, List.length_nil, Nat.zero_add] at href' ⊢
        exact href'.add

/-! ## Stacks that read their destination -/

/-- The state of the split of a stack that reads its destination. The members `pre` are done: they
are the trees of `ms` except that those which read the destination are computed in `early`. The
program stands for the clauses `early` and a stack `c'` of the trees of `ms` and the members that
are left. -/
structure Precomputes (N : NodeClass) (p : Program) (l early r : List Clause) (c c' : Clause)
    (pre ts : List Tree) (ms : List (Tree × NodeId)) : Prop where
  laid : p.Laid (l ++ ([c] ++ r))
  tidy : p.Tidy
  symbols : ∀ name s, p.find name = some s → N.Mem s.shape
  reads : c.name ∈ c.tree.names
  members : ∃ id label, c.tree = .node id label (pre ++ ts)
  target : c'.target = c.target
  label : ∃ id label, c'.tree = .node id label (ms.map Prod.fst ++ ts) ∧ label.kind = .stack
  length : ms.length = pre.length
  plain : ∀ m ∈ ms, c.name ∉ m.1.names
  stored : ∀ e ∈ early ++ slices c.target 0 ms,
    p.nodes[e.dst]? = some e.target ∧ e.tree.StoredIn p.nodes
  fits : ∀ e ∈ (l ++ early) ++ ([c'] ++ r), e.Fits N p.find
  nodup : (ms.map Prod.snd ++ ((l ++ early) ++ ([c'] ++ r)).flatMap Clause.ids).Nodup
  lt_size : ∀ i ∈ ms.map Prod.snd ++ ((l ++ early) ++ ([c'] ++ r)).flatMap Clause.ids,
    i < p.nodes.size

namespace Precomputes

variable {l early r : List Clause} {c c' : Clause} {pre ts : List Tree} {t : Tree} {n : Node}
  {ms : List (Tree × NodeId)}

theorem storedIn (h : Precomputes N p l early r c c' pre ts ms) : ∀ t ∈ pre ++ ts, t.StoredIn p.nodes := by
  obtain ⟨id, label, hc⟩ := h.members
  intro t ht
  have hstored := h.laid.stored c (by simp)
  rw [hc] at hstored
  exact hstored.operand ht

/-- The next member does not read the destination. -/
theorem direct (h : Precomputes N p l early r c c' pre (t :: ts) ms) (hreads : c.name ∉ t.names) :
    Precomputes N (p.add (slice c.target pre.length t.shape)).2 l early r c c' (pre ++ [t]) ts
      (ms ++ [(t, p.nodes.size)]) := by
  have hgrow := Program.Grows.push p (slice c.target pre.length t.shape)
  have hmembers : pre ++ t :: ts = (pre ++ [t]) ++ ts := by simp
  have hsize : (p.add (slice c.target pre.length t.shape)).2.nodes.size = p.nodes.size + 1 := by
    simp [Program.add]
  refine ⟨⟨h.laid.assignments, fun d hd => hgrow.node_eq (h.laid.target d hd),
    fun d hd => hgrow.storedIn (h.laid.stored d hd)⟩, ⟨h.tidy.nodup, h.tidy.named, h.tidy.taken⟩,
    h.symbols, h.reads, hmembers ▸ h.members, h.target, ?_, ?_, ?_, ?_, h.fits, ?_, ?_⟩
  · simpa using h.label
  · simp [h.length]
  · intro m hm
    rcases List.mem_append.mp hm with hm | hm
    · exact h.plain m hm
    · rw [List.mem_singleton.mp hm]
      exact hreads
  · intro e he
    rw [slices_append, Nat.zero_add, h.length, ← List.append_assoc] at he
    rcases List.mem_append.mp he with he | he
    · exact ⟨hgrow.node_eq (h.stored e he).1, hgrow.storedIn (h.stored e he).2⟩
    · rw [List.mem_singleton.mp he]
      exact ⟨Program.add_node p _, hgrow.storedIn (h.storedIn t (by simp))⟩
  · have hperm : ((ms ++ [(t, p.nodes.size)]).map Prod.snd ++
        ((l ++ early) ++ ([c'] ++ r)).flatMap Clause.ids).Perm (p.nodes.size ::
          (ms.map Prod.snd ++ ((l ++ early) ++ ([c'] ++ r)).flatMap Clause.ids)) := by
      simp only [List.map_append, List.map_cons, List.map_nil, List.append_assoc, List.singleton_append]
      exact List.perm_middle
    rw [hperm.nodup_iff, List.nodup_cons]
    exact ⟨fun hmem => Nat.lt_irrefl _ (h.lt_size _ hmem), h.nodup⟩
  · intro i hi
    rw [List.map_append, List.append_assoc] at hi
    simp only [List.mem_append, List.map_cons, List.map_nil, List.mem_singleton] at hi
    rw [hsize]
    rcases hi with hi | rfl | hi
    · exact Nat.lt_succ_of_lt (h.lt_size i (List.mem_append_left _ hi))
    · exact Nat.lt_succ_self _
    · exact Nat.lt_succ_of_lt (h.lt_size i (List.mem_append_right _ (by simpa using hi)))

/-- The program after the next member was computed beforehand. -/
def precomputed (p : Program) (shape : Shape) (view : Node) : Program :=
  let (symbol, p) := p.synthesize unstackRoot shape
  (((p.add (whole symbol.name shape)).2.add (whole symbol.name shape)).2.add view).2

theorem nodes_precomputed (p : Program) (shape : Shape) (view : Node) :
    (precomputed p shape view).nodes = p.nodes ++ #[whole (p.names.fresh unstackRoot).1 shape,
      whole (p.names.fresh unstackRoot).1 shape, view] := by
  apply Array.ext'
  simp [precomputed, Program.add, Program.synthesize]

theorem introduces_precomputed (h : p.Tidy) (shape : Shape) (view : Node) :
    Introduces p (precomputed p shape view) (p.names.fresh unstackRoot).1 shape :=
  (introduces_synthesize h (show '\x7b' ∉ unstackRoot.toList by decide) shape).congr rfl rfl rfl

/-- The next member reads the destination. -/
theorem precompute (h : Precomputes N p l early r c c' pre (t :: ts) ms) :
    ∃ c'', Precomputes N (precomputed p t.shape (slice c.target pre.length t.shape)) l
        (early ++ [computing p.nodes.size (p.names.fresh unstackRoot).1 t]) r c c'' (pre ++ [t]) ts
        (ms ++ [(wholeTree (p.nodes.size + 1) (p.names.fresh unstackRoot).1 t.shape,
          p.nodes.size + 2)]) ∧
      Retains N p ((l ++ early) ++ ([c'] ++ r))
        (precomputed p t.shape (slice c.target pre.length t.shape))
        ((l ++ (early ++ [computing p.nodes.size (p.names.fresh unstackRoot).1 t])) ++
          ([c''] ++ r)) := by
  have hnew := introduces_precomputed h.tidy t.shape (slice c.target pre.length t.shape)
  have hnodes := nodes_precomputed p t.shape (slice c.target pre.length t.shape)
  have hass : (precomputed p t.shape (slice c.target pre.length t.shape)).assignments =
      p.assignments := rfl
  generalize precomputed p t.shape (slice c.target pre.length t.shape) = p' at *
  generalize (p.names.fresh unstackRoot).1 = name at *
  have hold : ∀ i < p.nodes.size, p'.nodes[i]? = p.nodes[i]? := fun i hi => by
    rw [hnodes, Array.getElem?_append_left hi]
  have hnode : ∀ {i : NodeId} {m : Node}, p.nodes[i]? = some m → p'.nodes[i]? = some m := fun hm =>
    (hold _ (Array.getElem?_eq_some_iff.mp hm).1).trans hm
  have hstored : ∀ {u : Tree}, u.StoredIn p.nodes → u.StoredIn p'.nodes := fun hu =>
    hu.frame fun i hi => hold i (hu.lt_size i hi)
  obtain ⟨id, label, hc', hkind⟩ := h.label
  obtain ⟨label', tree, htree, hkind', hrw⟩ : ∃ label' tree,
      tree = .node id label' (ms.map Prod.fst ++ wholeTree (p.nodes.size + 1) name t.shape :: ts) ∧
      label'.kind = .stack ∧
      Tree.Rewrites (fun _ => True) t (wholeTree (p.nodes.size + 1) name t.shape)
        (.operand id (ms.map Prod.fst).length) c'.tree tree := by
    rw [hc']
    exact ⟨{ label with operands := label.operands.set (ms.map Prod.fst).length (p.nodes.size + 1) },
      _, rfl, hkind, .here trivial⟩
  have hfits := h.fits c' (by simp)
  have ht := hrw.typed_subtree hfits.typed
  have hfits' := hnew.fits_rewrite hfits hrw
  obtain ⟨hreads, hreads'⟩ := names_rewrite hrw
  have hassoc : (l ++ (early ++ [computing p.nodes.size name t])) ++ ([{ c' with tree }] ++ r) =
      (l ++ early) ++ ([computing p.nodes.size name t, { c' with tree }] ++ r) := by simp
  have hmembers : pre ++ t :: ts = (pre ++ [t]) ++ ts := by simp
  have hperm : ((ms ++ [(wholeTree (p.nodes.size + 1) name t.shape, p.nodes.size + 2)]).map Prod.snd ++
      ((l ++ early) ++ ([computing p.nodes.size name t, { c' with tree }] ++
        r)).flatMap Clause.ids).Perm ((p.nodes.size + 2) :: (p.nodes.size + 1) :: p.nodes.size ::
          (ms.map Prod.snd ++ ((l ++ early) ++ ([c'] ++ r)).flatMap Clause.ids)) := by
    rw [List.map_append, List.append_assoc]
    refine List.perm_middle.trans (.cons _ ?_)
    refine (List.Perm.append_left _ (ids_hoist hrw)).trans ?_
    exact List.perm_middle.trans (.cons _ List.perm_middle)
  refine ⟨{ c' with tree }, ⟨⟨hass.trans h.laid.assignments, fun d hd => hnode (h.laid.target d hd),
    fun d hd => hstored (h.laid.stored d hd)⟩, hnew.tidy, hnew.symbols ht.mem h.symbols, h.reads,
    hmembers ▸ h.members, h.target, ⟨id, label', by simp [htree], hkind'⟩, by simp [h.length],
    fun m hm => ?plain, fun e he => ?stored, ?fits, ?nodup, ?size⟩, ?retains⟩
  case plain =>
    rcases List.mem_append.mp hm with hm | hm
    · exact h.plain m hm
    · obtain ⟨s, hs, -⟩ := hfits.declared
      rw [List.mem_singleton.mp hm, names_wholeTree, List.mem_singleton]
      rw [Clause.name, h.target] at hs
      exact hnew.ne_of_find hs
  case stored =>
    rw [slices_append, Nat.zero_add, h.length] at he
    simp only [List.mem_append, List.mem_singleton, slices] at he
    rcases he with (he | rfl) | he | rfl
    · exact ⟨hnode (h.stored e (by simp [he])).1, hstored (h.stored e (by simp [he])).2⟩
    · exact ⟨by simp [hnodes], hstored (h.storedIn t (by simp))⟩
    · exact ⟨hnode (h.stored e (by simp [he])).1, hstored (h.stored e (by simp [he])).2⟩
    · exact ⟨by simp [hnodes, wholeTree, whole], .node (by simp [hnodes]) rfl (by simp)⟩
  case fits =>
    rw [hassoc]
    exact fits_prepend _ h.fits hnew.unused hnew.find ht hfits'
  case nodup =>
    rw [hassoc, hperm.nodup_iff]
    have hnot : ∀ i, p.nodes.size ≤ i →
        i ∉ ms.map Prod.snd ++ ((l ++ early) ++ ([c'] ++ r)).flatMap Clause.ids :=
      fun i hi hmem => Nat.not_lt.mpr hi (h.lt_size i hmem)
    simp only [List.nodup_cons, List.mem_cons, not_or]
    exact ⟨⟨by simp, by simp, hnot _ (by simp)⟩, ⟨by simp, hnot _ (by simp)⟩,
      hnot _ (Nat.le_refl _), h.nodup⟩
  case size =>
    rw [hassoc, hnodes]
    intro i hi
    simp only [hperm.mem_iff, List.mem_cons] at hi
    simp only [Array.size_append, List.size_toArray, List.length_cons, List.length_nil]
    rcases hi with rfl | rfl | rfl | hi
    · simp
    · simp
    · simp
    · exact Nat.lt_of_lt_of_le (h.lt_size i hi) (Nat.le_add_right _ _)
  case retains =>
    rw [hassoc]
    refine ⟨(hnew.revises h.tidy h.fits _ ht hfits' hreads hreads' fun hN {α} _ σ => ?_).toRefines,
      single_prepend _ h.fits hnew.unused hnew.find hrw⟩
    exact run_hoist hN hrw hfits.typed hfits'.typed (hnew.notMem_names hfits) rfl hfits.shape σ

end Precomputes

/-- A member that reads the destination is computed beforehand, and the result stored in its slice. -/
theorem unstackMembers_early {i k : Nat} {dst n : Node} {stack m : NodeId} {before after : List Assignment}
    {ms : List NodeId} {p : Program} (hn : p.nodes[m]? = some n) (hkind : n.kind ≠ .stack)
    (hres : renamable p i m dst.name = some none) (hreads : (p.tree m).reads dst.name = some true) :
    unstackMembers i dst stack k before after (m :: ms) p =
      unstackMembers i dst stack (k + 1) (before ++ [{ dst := p.nodes.size, expr := m }])
        (after ++ [{ dst := p.nodes.size + 2, expr := p.nodes.size + 1 }]) ms
        (Precomputes.precomputed p n.shape (slice dst k n.shape)) := by
  rw [unstackMembers]
  refine (Edit.bind_ok (Edit.node_run hn)).trans ?_
  rw [if_neg hkind]
  refine (Edit.bind_ok (Edit.query_run hres)).trans ?_
  refine (Edit.bind_ok (Edit.query_run hreads)).trans ?_
  rw [if_pos rfl]
  refine (Edit.bind_ok (Edit.synthesize_run _ _ _)).trans ?_
  refine (Edit.bind_ok (Edit.addIdent_run _ _ _)).trans ?_
  refine (Edit.bind_ok (Edit.addIdent_run _ _ _)).trans ?_
  refine (Edit.bind_ok (memberView_run _ _ _ _)).trans ?_
  simp only [Program.addIdent, Program.add, Array.size_push]
  rfl

/-- The members of a stack that reads its destination. -/
theorem unstackMembers_precompute {l early r : List Clause} {c c' : Clause} {pre ts : List Tree}
    {ms : List (Tree × NodeId)} {p : Program} (h : Precomputes N p l early r c c' pre ts ms)
    (hkinds : ∀ t ∈ ts, t.kind ≠ .stack) (stack : NodeId) :
    ∃ p' early' c'' ms', unstackMembers l.length c.target stack pre.length
        (early.map Clause.assignment) ((slices c.target 0 ms).map Clause.assignment)
        (ts.map Tree.root) p =
        .ok (early'.map Clause.assignment, (slices c.target 0 ms').map Clause.assignment) p' ∧
      Precomputes N p' l early' r c c'' (pre ++ ts) [] ms' ∧
      Retains N p ((l ++ early) ++ ([c'] ++ r)) p' ((l ++ early') ++ ([c''] ++ r)) ∧
      (∀ e ∈ early', e ∈ early ∨ e.tree ∈ ts) ∧
      ∀ m ∈ ms', m ∈ ms ∨ m.1 ∈ ts ∨ ∃ id name shape, m.1 = wholeTree id name shape := by
  induction ts generalizing p early c' pre ms with
  | nil => exact ⟨p, early, c', ms, rfl, by simpa using h, .refl _ _ _, fun _ => .inl, fun _ => .inl⟩
  | cons t ts ih =>
    have hstored := h.storedIn t (by simp)
    obtain ⟨n, us, ht, hn⟩ := hstored.exists_node
    have hkind : n.kind ≠ .stack := by
      have := hkinds t (.head _)
      rwa [ht] at this
    have hshape : n.shape = t.shape := by rw [ht]; rfl
    have hkinds' : ∀ t ∈ ts, t.kind ≠ .stack := fun t ht => hkinds t (List.mem_cons_of_mem _ ht)
    have hassoc : pre ++ t :: ts = (pre ++ [t]) ++ ts := by simp
    have hreads : (p.tree t.root).reads c.name = some (decide (c.name ∈ t.names)) := by
      rw [hstored.tree_eq, hstored.reads_eq]
    -- the stack itself reads the destination, so nothing is renamed
    have hres : renamable p l.length t.root c.name = some none := by
      obtain ⟨res, hres, hspec⟩ := renamable_spec h.laid hn
      cases res with
      | none => exact hres
      | some j =>
        obtain ⟨l₁, d, l₂, rfl, -, hren⟩ := hspec j rfl
        exact absurd h.reads (hren.unread c (by simp))
    rw [List.map_cons]
    by_cases hmem : c.name ∈ t.names
    · obtain ⟨d, hpre, href⟩ := h.precompute
      obtain ⟨p', early', c'', ms', hrun, hpre', href', hearly, hms⟩ := ih hpre hkinds'
      refine ⟨p', early', c'', ms', ?_, hassoc ▸ hpre', href.trans href', ?_, ?_⟩
      · rw [decide_eq_true hmem] at hreads
        rw [unstackMembers_early hn hkind hres hreads, hshape, ← hrun, slices_append, h.length]
        simp only [List.length_append, List.length_cons, List.length_nil, Nat.zero_add,
          List.map_append, List.map_cons, List.map_nil]
        rfl
      · intro e' he'
        rcases hearly e' he' with he' | he'
        · rcases List.mem_append.mp he' with he' | he'
          · exact .inl he'
          · rw [List.mem_singleton.mp he']
            exact .inr (.head _)
        · exact .inr (List.mem_cons_of_mem _ he')
      · intro m hm
        rcases hms m hm with hm | hm | hm
        · rcases List.mem_append.mp hm with hm | hm
          · exact .inl hm
          · rw [List.mem_singleton.mp hm]
            exact .inr (.inr ⟨_, _, _, rfl⟩)
        · exact .inr (.inl (List.mem_cons_of_mem _ hm))
        · exact .inr (.inr hm)
    · obtain ⟨p', early', c'', ms', hrun, hpre', href', hearly, hms⟩ := ih (h.direct hmem) hkinds'
      refine ⟨p', early', c'', ms', ?_, hassoc ▸ hpre', href'.add, ?_, ?_⟩
      · rw [decide_eq_false hmem] at hreads
        rw [unstackMembers_direct hn hkind hres hreads, hshape, ← hrun, slices_append, h.length]
        simp only [List.length_append, List.length_cons, List.length_nil, Nat.zero_add,
          List.map_append]
        rfl
      · exact fun e he => (hearly e he).imp_right (List.mem_cons_of_mem _)
      · intro m hm
        rcases hms m hm with hm | hm | hm
        · rcases List.mem_append.mp hm with hm | hm
          · exact .inl hm
          · rw [List.mem_singleton.mp hm]
            exact .inr (.inl (.head _))
        · exact .inr (.inl (List.mem_cons_of_mem _ hm))
        · exact .inr (.inr hm)

/-! ## The pass -/

/-- A predicate that selects stacks. The passes may add identifiers and transpositions anywhere,
which it must not select. -/
structure SelectsStacks (pred : NodeKind → Bool) : Prop where
  stack : pred .stack = true
  identifier : pred .identifier = false
  transposition : pred .transposition = false

theorem selectsStacks_contractionOrStack : SelectsStacks contractionOrStack := ⟨rfl, rfl, rfl⟩

theorem selectsStacks_stack : SelectsStacks (· == .stack) := ⟨rfl, rfl, rfl⟩

/-- A predicate selects no node. -/
def Plain (pred : NodeKind → Bool) (t : Tree) : Prop := ∀ n ∈ t.labels, pred n.kind = false

variable {pred : NodeKind → Bool}

theorem wholeTree_plain (hpred : SelectsStacks pred) (id : NodeId) (name : String)
    (shape : Shape) : Plain pred (wholeTree id name shape) := by
  intro n hn
  simp only [wholeTree, Tree.labels_node, List.flatMap_nil, List.mem_singleton] at hn
  rw [hn]
  exact hpred.identifier

theorem Rooted.member {id : NodeId} {label : Node} {ts : List Tree} {t : Tree}
    (h : Rooted pred (.node id label ts)) (ht : t ∈ ts) : Plain pred t :=
  fun n hn => h n (List.mem_flatMap.mpr ⟨t, ht, hn⟩)

theorem Plain.rooted {t : Tree} (h : Plain pred t) : Rooted pred t :=
  fun n hn => h n (Tree.inner_subset n hn)

theorem Plain.kind_ne {nodes : Array Node} {t : Tree} (h : Plain pred t) (ht : t.StoredIn nodes)
    (hpred : SelectsStacks pred) : t.kind ≠ .stack := by
  obtain ⟨n, us, heq, -⟩ := ht.exists_node
  intro hkind
  have hn := h n (by rw [heq, Tree.labels_node]; exact .head _)
  rw [heq, Tree.kind_node] at hkind
  rw [hkind, hpred.stack] at hn
  cases hn

/-- What a clause is like after the elimination of stacks. -/
structure Flat (pred : NodeKind → Bool) (c : Clause) : Prop where
  rooted : Rooted pred c.tree
  unstacked : c.tree.kind ≠ .stack

theorem Flat.kind_ne {c : Clause} {nodes : Array Node} (h : Flat pred c)
    (hc : c.tree.StoredIn nodes) (hpred : SelectsStacks pred) {n : Node} (hn : n ∈ c.tree.labels) :
    n.kind ≠ .stack := by
  obtain ⟨m, ts, htree, -⟩ := hc.exists_node
  rw [Tree.labels_eq_cons htree, List.mem_cons] at hn
  rcases hn with rfl | hn
  · have hroot := h.unstacked
    rw [htree] at hroot
    exact hroot
  · intro hk
    have := h.rooted n hn
    rw [hk, hpred.stack] at this
    cases this

/-! ## One statement -/

section

variable {l r : List Clause} {c : Clause} {label : Node} {ts : List Tree}

theorem unstackAt_stack (h : p.Laid (l ++ ([c] ++ r))) (htree : c.tree = .node c.tree.root label ts)
    (hkind : label.kind = .stack) {p' : Program} {before after : List Assignment}
    (hrun : unstackMembers l.length c.target c.tree.root 0 [] [] (ts.map Tree.root) p =
      .ok (before, after) p') :
    unstackAt l.length p = .ok () (p'.replaceAt l.length (before ++ after)) := by
  have hc : c ∈ l ++ ([c] ++ r) := by simp
  have ha : p.assignments[l.length]? = some c.assignment := by simp [h.assignments]
  have hstored := htree ▸ h.stored c hc
  refine (Edit.bind_ok (Edit.assignment_run ha)).trans ?_
  refine (Edit.bind_ok (Edit.node_run hstored.node_eq)).trans ?_
  rw [if_pos hkind]
  refine (Edit.bind_ok (Edit.query_run (h.target c hc))).trans ?_
  rw [← hstored.operands_eq] at hrun
  exact Edit.bind_ok (Edit.within_run hrun)

theorem assignments_replaceAt
    (h : p.assignments = (l ++ ([c] ++ r)).map Clause.assignment) (mid : List Clause) :
    (p.replaceAt l.length (mid.map Clause.assignment)).assignments =
      (l ++ (mid ++ r)).map Clause.assignment := by
  have hdrop : (l ++ ([c] ++ r)).drop (l.length + 1) = r := by
    rw [← List.append_assoc]
    exact List.drop_left' (by simp)
  rw [Program.replaceAt, h, ← List.map_take, ← List.map_drop, hdrop, List.take_left]
  simp

/-- Where the assignments are listed does not matter to what clauses do. -/
theorem retains_replaceAt (N : NodeClass) (p : Program) (cs : List Clause) (i : Nat)
    (as : List Assignment) : Retains N p cs (p.replaceAt i as) cs :=
  .of_find_eq rfl rfl rfl (fun _ _ _ _ => rfl) (fun _ hs => hs) id (.refl _ _)

/-- Slices do what the stack does, when its members do not read the destination. -/
theorem retains_split {id : NodeId} {ms : List (Tree × NodeId)}
    (hc : c.tree = .node id label (ms.map Prod.fst)) (hkind : label.kind = .stack)
    (hfits : c.Fits N p.find) (hreads : ∀ m ∈ ms, c.name ∉ m.1.names) :
    Retains N p (l ++ ([c] ++ r)) p (l ++ (slices c.target 0 ms ++ r)) := by
  refine .of_find_eq rfl rfl rfl (fun _ {α} _ σ => ?run) (fun _ hs => sound_split hs hc hkind)
    (fun hl e he => ?loops) (single_split hc hkind)
  case run =>
    rw [runClauses_append, runClauses_append, runClauses_append l, runClauses_append [c],
      run_split hc hkind hfits hreads]
  case loops =>
    simp only [List.mem_append] at he
    rcases he with he | he | he
    · exact hl e (by simp [he])
    · obtain ⟨i, m, -, rfl⟩ := mem_slices he
      rfl
    · exact hl e (by simp [he])

/-- One statement is replaced by statements without stacks, and the expressions around it stay. -/
def UnstacksAt (N : NodeClass) (pred : NodeKind → Bool) (p : Program) (l r : List Clause)
    (c : Clause) : Prop :=
  ∃ p' l' mid, unstackAt l.length p = .ok () p' ∧ p'.Shows N (l' ++ (mid ++ r)) ∧
    Retains N p (l ++ ([c] ++ r)) p' (l' ++ (mid ++ r)) ∧
    l'.map Clause.tree = l.map Clause.tree ∧ (∀ e ∈ mid, Flat pred e) ∧
    ((∀ e ∈ l ++ [c], e.ReadsOthers) → ∀ e ∈ l' ++ mid, e.ReadsOthers)

/-- Members of a stack that reads its destination are computed before the slices are written. -/
theorem unstacksAt_precompute (h : p.Shows N (l ++ ([c] ++ r))) (hpred : SelectsStacks pred)
    (htree : c.tree = .node c.tree.root label ts) (hkind : label.kind = .stack)
    (hplain : ∀ t ∈ ts, Plain pred t) (hkinds : ∀ t ∈ ts, t.kind ≠ .stack)
    (hreads : c.name ∈ c.tree.names) : UnstacksAt N pred p l r c := by
  have hstart : Precomputes N p l [] r c c [] ts [] := by
    refine ⟨h.laid, h.tidy, h.symbols, hreads, ⟨_, _, htree⟩, rfl, ⟨_, _, htree, hkind⟩, rfl,
      by simp, by simp [slices], by simpa using h.fits, ?_, ?_⟩
    · rw [List.append_nil]
      exact h.unshared
    · rw [List.append_nil]
      intro i hi
      obtain ⟨d, hd, hid⟩ := List.mem_flatMap.mp hi
      exact h.laid.lt_size hd hid
  obtain ⟨p', early, c', ms, hrun, hpre, href, hearly, hms⟩ :=
    unstackMembers_precompute hstart hkinds c.tree.root
  obtain ⟨id, label', htree', hkind'⟩ := hpre.label
  rw [List.append_nil] at htree' href
  have hassoc : (l ++ early) ++ (slices c.target 0 ms ++ r) =
      l ++ ((early ++ slices c.target 0 ms) ++ r) := by simp
  have hfits := hpre.fits c' (by simp)
  have hfits' := fits_slices hfits htree' hkind'
  rw [hpre.target] at hfits'
  refine ⟨_, l, early ++ slices c.target 0 ms, unstackAt_stack h.laid htree hkind hrun,
    ⟨?laid, ?unshared, ⟨hpre.tidy.nodup, hpre.tidy.named, hpre.tidy.taken⟩, hpre.symbols, ?fits⟩,
    ?retains, rfl, fun e he => ?flat, fun h => absurd hreads (h c (by simp))⟩
  case laid =>
    refine hpre.laid.replace _ ?_ (fun _ _ _ _ => rfl) hpre.stored
    rw [← List.map_append, assignments_replaceAt hpre.laid.assignments]
  case unshared =>
    rw [← hassoc]
    exact unshared_split htree' hpre.nodup
  case fits =>
    intro e he
    rw [← hassoc, List.mem_append, List.mem_append (s := slices c.target 0 ms)] at he
    rcases he with he | he | he
    · exact hpre.fits e (List.mem_append_left _ he)
    · exact hfits' e he
    · exact hpre.fits e (by simp [he])
  case retains =>
    have hplain' : ∀ m ∈ ms, c'.name ∉ m.1.names := fun m hm => by
      rw [Clause.name, hpre.target]
      exact hpre.plain m hm
    have hsplit := retains_split (l := l ++ early) (r := r) htree' hkind' hfits hplain'
    rw [hpre.target, hassoc] at hsplit
    exact (href.trans hsplit).trans (retains_replaceAt _ _ _ _ _)
  case flat =>
    have he' : Plain pred e.tree := by
      rcases List.mem_append.mp he with he | he
      · exact hplain _ ((hearly e he).resolve_left (by simp))
      · obtain ⟨i, m, hm, rfl⟩ := mem_slices he
        rcases hms m (List.mem_of_getElem? hm) with hm | hm | ⟨id, name, shape, hm⟩
        · cases hm
        · exact hplain _ hm
        · show Plain pred m.1
          rw [hm]
          exact wholeTree_plain hpred id name shape
    exact ⟨he'.rooted, he'.kind_ne (hpre.stored e he).2 hpred⟩

/-- A stack that does not read its destination is written slice by slice. -/
theorem unstacksAt_split (h : p.Shows N (l ++ ([c] ++ r)))
    (htree : c.tree = .node c.tree.root label ts) (hkind : label.kind = .stack)
    (hplain : ∀ t ∈ ts, Plain pred t) (hkinds : ∀ t ∈ ts, t.kind ≠ .stack)
    (hreads : c.name ∉ c.tree.names) : UnstacksAt N pred p l r c := by
  have hfits := h.fits c (by simp)
  have hnames : ∀ t ∈ ts, c.name ∉ t.names := by
    intro t ht hmem
    rw [htree, Tree.names_node] at hreads
    exact hreads (List.mem_append_right _ (List.mem_flatMap.mpr ⟨t, ht, hmem⟩))
  have hms : (ts.zipIdx p.nodes.size).map Prod.fst = ts := List.zipIdx_map_fst _ _
  have hms' : c.tree = .node c.tree.root label ((ts.zipIdx p.nodes.size).map Prod.fst) := by
    rw [hms]
    exact htree
  have hmem : ∀ {m}, m ∈ ts.zipIdx p.nodes.size → m.1 ∈ ts := fun hm => by
    rw [← hms]
    exact List.mem_map_of_mem hm
  obtain ⟨shape, hshape, hshapes, -⟩ := stack_members hfits htree hkind
  have hstart : Splits N p l [] r c [] ts := by
    refine ⟨h.laid, h.tidy, h.symbols, ⟨_, _, htree, hkind⟩, ⟨shape, hshape, hshapes⟩, hnames,
      by simp, fun e he => ?_, unshared_split hms' ?_⟩
    · simp only [List.nil_append, List.mem_append] at he
      rcases he with he | he | he
      · exact h.fits e (by simp [he])
      · exact fits_slices hfits hms' hkind e he
      · exact h.fits e (by simp [he])
    · rw [List.zipIdx_map_snd, List.nodup_append]
      refine ⟨List.nodup_range', h.unshared, fun i hi j hj hij => ?_⟩
      obtain ⟨d, hd, hid⟩ := List.mem_flatMap.mp hj
      have hlo := (List.mem_range'_1.mp hi).1
      exact Nat.not_lt.mpr hlo (hij ▸ h.laid.lt_size hd hid)
  obtain ⟨p', l', out, hrun, hsplit, href, htrees, hothers⟩ :=
    unstackMembers_split hstart hkinds c.tree.root
  have hlen : l'.length = l.length := by simpa using congrArg List.length htrees
  have hout : ∀ e ∈ out, e.tree ∈ ts := fun e he => (hsplit.done e he).2.1
  have hpend : out ++ pending p' c ([] ++ ts).length [] = out := List.append_nil _
  refine ⟨_, l', out, unstackAt_stack h.laid htree hkind hrun,
    ⟨?laid, hpend ▸ hsplit.unshared,
      ⟨hsplit.tidy.nodup, hsplit.tidy.named, hsplit.tidy.taken⟩, hsplit.symbols,
      hpend ▸ hsplit.fits⟩, ?retains, htrees, fun e he => ?flat, fun h e he => ?others⟩
  case laid =>
    refine hsplit.laid.replace _ ?_ (fun _ _ _ _ => rfl) fun e he => ?_
    · rw [← hlen, List.nil_append, assignments_replaceAt hsplit.laid.assignments]
    · exact ⟨(hsplit.done e he).1, hsplit.storedIn _ (by simpa using hout e he)⟩
  case retains =>
    have hslices := retains_split (l := l) (r := r) hms' hkind hfits fun m hm => hnames _ (hmem hm)
    exact hslices.trans (href.trans (retains_replaceAt _ _ _ _ _))
  case flat => exact ⟨(hplain _ (hout e he)).rooted, hkinds _ (hout e he)⟩
  case others =>
    rcases List.mem_append.mp he with he | he
    · exact hothers (fun e he => h e (by simp [he])) e he
    · obtain ⟨-, -, i, -, htarget⟩ := hsplit.done e he
      rw [Clause.ReadsOthers, Clause.name, htarget]
      exact hnames _ (hout e he)

theorem unstackAt_spec (h : p.Shows N (l ++ ([c] ++ r))) (hpred : SelectsStacks pred)
    (hrooted : Rooted pred c.tree) : UnstacksAt N pred p l r c := by
  have hstored := h.laid.stored c (by simp)
  obtain ⟨label, ts, htree, hroot⟩ := hstored.exists_node
  by_cases hkind : label.kind = .stack
  · have hplain : ∀ t ∈ ts, Plain pred t := fun t ht => (htree ▸ hrooted).member ht
    have hkinds : ∀ t ∈ ts, t.kind ≠ .stack := fun t ht =>
      (hplain t ht).kind_ne ((htree ▸ hstored).operand ht) hpred
    by_cases hreads : c.name ∈ c.tree.names
    · exact unstacksAt_precompute h hpred htree hkind hplain hkinds hreads
    · exact unstacksAt_split h htree hkind hplain hkinds hreads
  · have ha : p.assignments[l.length]? = some c.assignment := by simp [h.laid.assignments]
    refine ⟨p, l, [c], ?run, h, .refl _ _ _, rfl, ?flat, id⟩
    case run =>
      refine (Edit.bind_ok (Edit.assignment_run ha)).trans ?_
      refine (Edit.bind_ok (Edit.node_run hroot)).trans ?_
      rw [if_neg hkind]
      rfl
    case flat =>
      intro e he
      rw [List.mem_singleton.mp he]
      exact ⟨hrooted, by rw [htree]; exact hkind⟩

end

/-- Clauses that are done have no stack. -/
theorem unstackBelow_spec {l r : List Clause} {p : Program} (h : p.Shows N (l ++ r))
    (hpred : SelectsStacks pred) (hrooted : ∀ c ∈ l, Rooted pred c.tree) (hdone : ∀ c ∈ r, Flat pred c) :
    ∃ p' cs, unstackBelow l.length p = .ok () p' ∧ p'.Shows N cs ∧ Retains N p (l ++ r) p' cs ∧
      (∀ c ∈ cs, Flat pred c) ∧ ((∀ c ∈ l ++ r, c.ReadsOthers) → ∀ c ∈ cs, c.ReadsOthers) := by
  generalize hn : l.length = n
  induction n generalizing l r p with
  | zero =>
    rw [List.length_eq_zero_iff.mp hn] at h ⊢
    exact ⟨p, r, rfl, h, .refl _ _ _, hdone, id⟩
  | succ n ih =>
    obtain ⟨l₀, c, rfl⟩ : ∃ l₀ c, l = l₀ ++ [c] :=
      ⟨l.dropLast, _, (List.dropLast_concat_getLast (by rintro rfl; simp at hn)).symm⟩
    have hlen : l₀.length = n := by simpa using hn
    rw [List.append_assoc] at h ⊢
    obtain ⟨p₁, l₁, mid, hrun, hshows, href, htrees, hmid, hothers⟩ :=
      unstackAt_spec h hpred (hrooted c (by simp))
    have hrooted₁ : ∀ e ∈ l₁, Rooted pred e.tree := by
      intro e he
      have hmem : e.tree ∈ l₀.map Clause.tree := htrees ▸ List.mem_map_of_mem he
      obtain ⟨e₀, he₀, heq⟩ := List.mem_map.mp hmem
      rw [← heq]
      exact hrooted e₀ (by simp [he₀])
    obtain ⟨p₂, cs, hrun₂, hshows₂, href₂, hcs, hothers₂⟩ := ih hshows hrooted₁
      (fun e he => (List.mem_append.mp he).elim (hmid e) (hdone e))
      (by simpa [hlen] using congrArg List.length htrees)
    refine ⟨p₂, cs, ?_, hshows₂, href.trans href₂, hcs, fun h => hothers₂ fun e he => ?_⟩
    · rw [unstackBelow, ← hlen, Edit.bind_ok hrun, hlen, hrun₂]
    · rw [← List.append_assoc, List.mem_append] at he
      rcases he with he | he
      · exact hothers (fun e he => h e (by simp only [List.mem_append] at he ⊢; tauto)) e he
      · exact h e (by simp [he])

/-- When stacks stand at roots, the pass splits all of them and then checks what it made. Nothing
that the predicate selects is moved away from a root, and no clause is made to read its own
destination. -/
theorem unstack_eq {cs : List Clause} (h : p.Shows N cs) (hpred : SelectsStacks pred)
    (hrooted : ∀ c ∈ cs, Rooted pred c.tree) :
    ∃ p' cs', unstack p = Edit.verify { noKinds := [.stack], noSharing := true } p' ∧
      p'.Shows N cs' ∧ Retains N p cs p' cs' ∧ (∀ c ∈ cs', Flat pred c) ∧
      ((∀ c ∈ cs, c.ReadsOthers) → ∀ c ∈ cs', c.ReadsOthers) := by
  obtain ⟨p', cs', hrun, hshows, href, hcs, hothers⟩ :=
    unstackBelow_spec (l := cs) (r := []) (by simpa using h) hpred hrooted (by simp)
  rw [List.append_nil] at href hothers
  refine ⟨p', cs', ?_, hshows, href, hcs, hothers⟩
  rw [unstack, Edit.bind_ok (Edit.query_some_run _), h.laid.assignments, List.length_map]
  exact Edit.bind_ok hrun

/-- The pass succeeds on sound clauses when stacks and contractions stand at roots, and it leaves no
stack. -/
theorem unstack_spec {K : ShapeClass} {cs : List Clause} (h : p.Shows K.nodes cs)
    (hs : Sound K p.find cs) (hrooted : ∀ c ∈ cs, Rooted contractionOrStack c.tree) :
    ∃ p' cs', unstack p = .ok () p' ∧ p'.Shows K.nodes cs' ∧ Retains K.nodes p cs p' cs' ∧
      (∀ c ∈ cs', Flat contractionOrStack c) ∧
      ((∀ c ∈ cs, c.ReadsOthers) → ∀ c ∈ cs', c.ReadsOthers) := by
  obtain ⟨p', cs', hrun, hshows, href, hcs, hothers⟩ := unstack_eq h selectsStacks_contractionOrStack hrooted
  refine ⟨p', cs', hrun.trans (Edit.verify_run ?_), hshows, href, hcs, hothers⟩
  refine Program.verify_eq_none hshows.laid hshows.tidy hshows.fits (href.sound rfl hs).verified
    nofun rfl (fun _ => hshows.unshared) fun c hc n hn => ?_
  rw [List.mem_singleton]
  exact (hcs c hc).kind_ne (hshows.laid.stored c hc) selectsStacks_contractionOrStack hn

end LoopNest.Pass
