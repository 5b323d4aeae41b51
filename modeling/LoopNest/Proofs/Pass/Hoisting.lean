import LoopNest.Pass.Lift
import LoopNest.Proofs.Edit

/-!
# Moving a subexpression out

`hoist` computes a subexpression into a tensor of its own, right in front of the assignment that it
was a part of. The new tensor is read in its place (`hoist_spec`). What a new tensor changes is the
same in all passes that add one (`Introduces.revises`).
-/

namespace LoopNest.Pass

variable {N : NodeClass} {p : Program}

/-- The node that reads or writes all of a tensor. -/
def whole (name : String) (shape : Shape) : Node := { kind := .identifier, name, shape }

/-- The tree that reads all of a tensor. -/
def wholeTree (id : NodeId) (name : String) (shape : Shape) : Tree := .node id (whole name shape) []

theorem whole_views (name : String) (shape : Shape) : (whole name shape).Views shape :=
  ⟨[], rfl, .nil⟩

theorem wholeTree_typed {S : Shapes} {name : String} {shape : Shape} (hN : N.Mem shape)
    (hS : S name = some shape) (id : NodeId) : (wholeTree id name shape).Typed N.Admits S :=
  .node ⟨hN, fun _ => N.whole⟩ (.identifier rfl hS (whole_views name shape)) (by simp)

@[simp] theorem names_wholeTree (id : NodeId) (name : String) (shape : Shape) :
    (wholeTree id name shape).names = [name] := by
  rw [wholeTree, Tree.names_node]
  rfl

theorem wholeTree_eval {α : Type} [Scalar α] (σ : Cells α) (id : NodeId) (name : String)
    (shape : Shape) (idx : List Int) : (wholeTree id name shape).eval σ idx = σ name idx := by
  rw [wholeTree, Tree.eval_ident rfl]
  simp [loadAt, Node.subscript, whole]

/-- The clause that writes the value of a tree to all of a tensor. -/
@[reducible] def computing (dst : NodeId) (name : String) (x : Tree) : Clause :=
  { dst, target := whole name x.shape, tree := x }

/-- A whole tensor is written at the indices of its shape. -/
theorem step_whole {α : Type} [Scalar α] (σ : Cells α) {dst : NodeId} {name : String} {t : Tree}
    {idx : List Int} (hidx : InRange t.shape idx) :
    (computing dst name t).step σ name idx = t.eval σ idx :=
  @Clause.step_own α _ (computing dst name t) idx idx (Node.own?_whole rfl rfl hidx) σ

/-- Computing a subexpression beforehand does not change what an assignment does. -/
theorem run_hoist {α : Type} [Scalar α] {S S' : Shapes} {Q : Node → Prop} {x t t' : Tree}
    {slot : Slot} {name : String} {read dst : NodeId} (hN : N.Sized)
    (hrw : Tree.Rewrites Q x (wholeTree read name x.shape) slot t t') (ht : t.Typed N.Admits S)
    (ht' : t'.Typed N.Admits S') (hname : name ∉ t.names) {c : Clause} (hc : c.tree = t)
    (hshape : c.tree.shape = c.target.shape) (σ : Cells α) :
    ∀ n, n ∉ [name] → runClauses [computing dst name x, { c with tree := t' }] σ n =
      runClauses [c] σ n := by
  subst hc
  intro n hn
  have hcells : ∀ m, m ≠ name → (computing dst name x).step σ m = σ m :=
    fun m hm => Clause.step_of_ne hm σ
  funext sub
  simp only [runClauses_cons, runClauses_nil]
  have hcell := congrFun (hcells n (by simpa using hn)) sub
  refine (@Clause.step_congr α _ c { c with tree := t' } _ _ n sub rfl hcell.symm
    fun idx _ hown => ?_).symm
  refine hrw.eval_eq hN.admits ht ht' rfl (fun m hm => ?_) (fun i hi => ?_) ?_
  · exact (hcells m (by rintro rfl; exact hname hm)).symm
  · rw [wholeTree_eval, step_whole σ hi]
  · rw [hshape]
    exact (Node.own?_eq_some_iff.mp hown).2

/-- What the table holds after a subexpression was moved out. -/
theorem hoist_run {i : Nat} {parent : NodeId} {k : Nat} {a : Assignment} {n : Node} {x : NodeId}
    {xn : Node} (ha : p.assignments[i]? = some a) (hn : p.nodes[parent]? = some n)
    (hk : n.operands[k]? = some x) (hx : p.nodes[x]? = some xn) :
    ∃ p', hoist i (.operand parent k) p = .ok p.nodes.size p' ∧
      (∀ j < p.nodes.size, j ≠ parent → p'.nodes[j]? = p.nodes[j]?) ∧
      p'.nodes[parent]? =
        some { n with operands := n.operands.set k p.nodes.size } ∧
      p'.nodes[p.nodes.size]? = some (whole (p.names.fresh liftRoot).1 xn.shape) ∧
      p'.nodes[p.nodes.size + 1]? = some (whole (p.names.fresh liftRoot).1 xn.shape) ∧
      p'.assignments = p.assignments.take i ++ [⟨p.nodes.size + 1, x, none⟩] ++
        p.assignments.drop i ∧
      p'.symbols = (p.synthesize liftRoot xn.shape).2.symbols ∧
      p'.names = (p.synthesize liftRoot xn.shape).2.names ∧ p'.fusion = p.fusion := by
  have hparent : parent < p.nodes.size := (Array.getElem?_eq_some_iff.mp hn).1
  have hslot : p.slotNode? a (.operand parent k) = some x := by
    simp [Program.slotNode?, Program.operand?, Program.node?, hn, hk]
  let p₂ := ((p.synthesize liftRoot xn.shape).2.addIdent (p.names.fresh liftRoot).1 xn.shape).2
  have hn₂ : p₂.nodes[parent]? = some n := by
    show (p.nodes.push _)[parent]? = some n
    rw [Array.getElem?_push, if_neg (Nat.ne_of_lt hparent), hn]
  have hset := Program.setSlot?_operand (i := i) hn₂ (List.getElem?_eq_some_iff.mp hk).1 p.nodes.size
  let p₃ := p₂.modifyNode parent fun n => { n with operands := n.operands.set k p.nodes.size }
  have hsize : p₃.nodes.size = p.nodes.size + 1 := by simp [p₃, p₂, Program.modifyNode,
    Program.addIdent, Program.add, Program.synthesize]
  let p₄ := (p₃.addIdent (p.names.fresh liftRoot).1 xn.shape).2
  have hold : ∀ j < p₃.nodes.size, p₄.nodes[j]? = p₃.nodes[j]? := fun j hj =>
    (Program.Grows.push p₃ _).getElem?_eq hj
  have hmod : ∀ j, p₃.nodes[j]? = if parent = j then
      (p.nodes.push (whole (p.names.fresh liftRoot).1 xn.shape))[j]?.map
        (fun n => { n with operands := n.operands.set k p.nodes.size })
      else (p.nodes.push (whole (p.names.fresh liftRoot).1 xn.shape))[j]? :=
    fun j => Program.getElem?_modifyNode p₂ parent j _
  refine ⟨p₄.insertAt i [⟨p.nodes.size + 1, x, none⟩], ?_, ?_, ?_, ?_, ?_, rfl, rfl, rfl, rfl⟩
  · refine (Edit.bind_ok (Edit.assignment_run ha)).trans ?_
    refine (Edit.bind_ok (Edit.query_run hslot)).trans ?_
    refine (Edit.bind_ok (Edit.node_run hx)).trans ?_
    refine (Edit.bind_ok (Edit.synthesize_run p liftRoot xn.shape)).trans ?_
    refine (Edit.bind_ok (Edit.addIdent_run _ _ _)).trans ?_
    refine (Edit.bind_ok (Edit.setSlot_run hset)).trans ?_
    refine (Edit.bind_ok (Edit.addIdent_run _ _ _)).trans ?_
    refine (Edit.bind_ok (Edit.change_some_run _)).trans ?_
    show EStateM.Result.ok p.nodes.size (p₄.insertAt i [⟨p₃.nodes.size, x, none⟩]) = _
    rw [hsize]
  · intro j hj hne
    show p₄.nodes[j]? = _
    rw [hold j (by omega), hmod, if_neg (Ne.symm hne), Array.getElem?_push, if_neg (Nat.ne_of_lt hj)]
  · show p₄.nodes[parent]? = _
    rw [hold parent (hsize ▸ Nat.lt_succ_of_lt hparent), hmod, if_pos rfl, Array.getElem?_push,
      if_neg (Nat.ne_of_lt hparent), hn]
    rfl
  · show p₄.nodes[p.nodes.size]? = _
    rw [hold _ (by omega), hmod, if_neg (Nat.ne_of_lt hparent)]
    simp
  · show p₄.nodes[p.nodes.size + 1]? = _
    rw [← hsize]
    exact Program.add_node p₃ _

/-- The nodes after a subexpression was moved out: two new ones, and all others. -/
theorem ids_hoist {Q : Node → Prop} {l r : List Clause} {c : Clause} {x t' : Tree}
    {slot : Slot} {name : String} {read dst : NodeId}
    (hrw : Tree.Rewrites Q x (wholeTree read name x.shape) slot c.tree t') :
    ((l ++ ([computing dst name x, { c with tree := t' }] ++ r)).flatMap Clause.ids).Perm
      (read :: dst :: (l ++ ([c] ++ r)).flatMap Clause.ids) := by
  obtain ⟨A, B, hA, hB⟩ := hrw.ids
  rw [List.perm_iff_count]
  intro i
  simp only [List.flatMap_append, List.flatMap_cons, List.flatMap_nil, Clause.ids, hA, hB,
    wholeTree, Tree.ids_node, List.count_append, List.count_cons, List.count_nil]
  omega

section
variable {l r : List Clause} {c : Clause} {x t' : Tree} {name : String} {dst : NodeId}
  {find find' : Symbols}

/-- Computing something into a new tensor in front of a clause, which may then read the new tensor,
keeps the clauses well-shaped. -/
theorem fits_prepend (dst : NodeId) (h : ∀ d ∈ l ++ ([c] ++ r), d.Fits N find) (hnone : find name = none)
    (hfind : ∀ m, find' m = if m = name then some ⟨name, x.shape, .synthesized⟩ else find m)
    (hx : x.Typed N.Admits find.shapes) (hfits : Clause.Fits N find' { c with tree := t' }) :
    ∀ d ∈ l ++ ([computing dst name x, { c with tree := t' }] ++ r), d.Fits N find' := by
  have hext := extends_of_new hnone hfind
  have hnew : find' name = some ⟨name, x.shape, .synthesized⟩ := by rw [hfind, if_pos rfl]
  intro d hd
  simp only [List.mem_append, List.mem_cons, List.not_mem_nil, or_false] at hd
  rcases hd with hd | (rfl | rfl) | hd
  · exact (h d (by simp [hd])).extend hext
  · exact ⟨rfl, ⟨_, hnew, whole_views name x.shape, Role.synthesized_ne_input⟩, rfl, hx.extend hext⟩
  · exact hfits
  · exact (h d (by simp [hd])).extend hext

/-- Sound clauses remain sound. -/
theorem sound_prepend {K : ShapeClass} (h : Sound K find (l ++ ([c] ++ r)))
    (hnone : find name = none) (hplain : '\x7b' ∉ name.toList)
    (hfind : ∀ m, find' m = if m = name then some ⟨name, x.shape, .synthesized⟩ else find m)
    (hx : x.Typed K.Admits find.shapes) (hreads : ∀ m ∈ x.names, m ∈ c.tree.names)
    (hfits : Clause.Fits K find' { c with tree := t' })
    (hnames : ∀ m ∈ t'.names, m ∈ c.tree.names ∨ m = name) :
    Sound K find' (l ++ ([computing dst name x, { c with tree := t' }] ++ r)) := by
  have hext := extends_of_new hnone hfind
  have hnew : find' name = some ⟨name, x.shape, .synthesized⟩ := by rw [hfind, if_pos rfl]
  obtain ⟨s, hs, -⟩ := (h.fits c (by simp)).declared
  have hord := (ordered_append.mp (ordered_append.mp h.ordered).2).1.extend
    (fun d hd => h.fits d (by simp at hd; simp [hd])) hext
  have hne : c.name ≠ name := by
    intro heq
    rw [heq, hnone] at hs
    cases hs
  have hall := fits_prepend dst h.fits hnone hfind hx hfits
  refine Replacement.result ⟨h, hext, ?_, fun d hd => hall d (by simp at hd ⊢; tauto), ?_, ?_, ?_, ?_⟩
  · intro m s hs
    rw [hfind] at hs
    split at hs
    · rename_i heq
      subst heq
      cases hs
      refine .inr ⟨hnone, hx.mem, fun sub hsub => ?_, hplain⟩
      exact ((whole_views m x.shape).filled rfl sub hsub).mono (by simp)
    · exact .inl hs
  · refine ⟨fun m hm s hs => ?_, fun m hm s hs => ?_, trivial⟩
    · simpa using hord.1 m (hreads m hm) s hs
    · rcases hnames m hm with hm | rfl
      · exact (hord.1 m hm s hs).imp_right fun hfill sub hsub =>
          (hfill sub hsub).mono fun n hn => List.mem_cons_of_mem _ (by simpa using hn)
      · rw [hnew] at hs
        cases hs
        exact .inr fun sub hsub =>
          ((whole_views m x.shape).filled rfl sub hsub).mono (by simp)
  · intro m sub hsub
    exact hsub.mono (by simp)
  · simp only [List.map_cons, List.map_nil, List.pairwise_cons, List.mem_singleton, forall_eq,
      List.not_mem_nil, false_implies, implies_true, List.Pairwise.nil, and_true]
    exact fun heq => absurd heq.symm hne
  · intro d hd
    simp only [List.mem_cons, List.not_mem_nil, or_false] at hd
    rcases hd with rfl | rfl
    · exact .inl hnone
    · exact .inr ⟨c, by simp, rfl, List.prefix_rfl⟩

/-- Verified clauses remain verified. -/
theorem verified_prepend (h : Verified find (l ++ ([c] ++ r)))
    (hfits : ∀ d ∈ l ++ ([c] ++ r), d.Fits N find) (hnone : find name = none)
    (hplain : '\x7b' ∉ name.toList)
    (hfind : ∀ m, find' m = if m = name then some ⟨name, x.shape, .synthesized⟩ else find m)
    (hreads : ∀ m ∈ x.names, m ∈ c.tree.names)
    (hnames : ∀ m ∈ t'.names, m ∈ c.tree.names ∨ m = name) :
    Verified find' (l ++ ([computing dst name x, { c with tree := t' }] ++ r)) := by
  have hext := extends_of_new hnone hfind
  have hnew : find' name = some ⟨name, x.shape, .synthesized⟩ := by rw [hfind, if_pos rfl]
  obtain ⟨hl, hc, hr⟩ := writtenFirst_append.mp (h.ordered.extend hfits hext)
  refine ⟨writtenFirst_append.mpr ⟨hl, fun m hm => hc m (hreads m hm), fun m hm s hs => ?_, ?_⟩,
    ?_, fun m s hs hsynth => ?_⟩
  · rcases hnames m hm with hm | rfl
    · exact (hc m hm s hs).imp_right (List.mem_cons_of_mem _)
    · exact .inr (.head _)
  · exact hr.mono fun m hm => by simp at hm ⊢; tauto
  · have hold : (l ++ ([c] ++ r)).flatMap (Clause.definition find') =
        (l ++ ([c] ++ r)).flatMap (Clause.definition find) :=
      List.flatMap_congr fun d hd => Clause.definition_extend (hfits d hd) hext
    have hc' : Clause.definition find' { c with tree := t' } = c.definition find' := rfl
    have hx : (computing dst name x).definition find' = [name] := by
      rw [Clause.definition_of_synthesized hnew Role.isSynthesized_synthesized]
      exact congrArg (fun text => [text]) (definitionText_whole name)
    have hperm : ((l ++ ([computing dst name x, { c with tree := t' }] ++ r)).flatMap
        (Clause.definition find')).Perm
          (name :: (l ++ ([c] ++ r)).flatMap (Clause.definition find)) := by
      rw [← hold]
      simp only [List.flatMap_append, List.flatMap_cons, List.flatMap_nil, hx, hc',
        List.append_nil, List.singleton_append]
      exact List.perm_middle
    rw [hperm.nodup_iff, List.nodup_cons]
    refine ⟨fun hmem => ?_, h.definitions⟩
    obtain ⟨d, hd, htext⟩ := List.mem_flatMap.mp hmem
    obtain ⟨s, hs, -, heq⟩ := Clause.mem_definition.mp htext
    rw [name_eq_of_definitionText hplain heq.symm, hnone] at hs
    cases hs
  · rw [hfind] at hs
    split at hs
    · rename_i heq
      exact ⟨computing dst name x, by simp, heq.symm⟩
    · obtain ⟨d, hd, hdname⟩ := h.defined m s hs hsynth
      simp only [List.mem_append, List.mem_singleton] at hd
      rcases hd with hd | rfl | hd
      · exact ⟨d, by simp [hd], hdname⟩
      · exact ⟨{ d with tree := t' }, by simp, hdname⟩
      · exact ⟨d, by simp [hd], hdname⟩

/-- The new tensor is read once, and the others are read as often as before. -/
theorem single_prepend {Q : Node → Prop} {slot : Slot} {read : NodeId} (dst : NodeId)
    (hfits : ∀ d ∈ l ++ ([c] ++ r), d.Fits N find) (hnone : find name = none)
    (hfind : ∀ m, find' m = if m = name then some ⟨name, x.shape, .synthesized⟩ else find m)
    (hrw : Tree.Rewrites Q x (wholeTree read name x.shape) slot c.tree t') :
    KeepsSingle find (l ++ ([c] ++ r)) find'
      (l ++ ([computing dst name x, { c with tree := t' }] ++ r)) := by
  intro exempt h
  obtain ⟨A, B, hA, hB⟩ := hrw.names
  have hcount : ∀ m, ((l ++ ([computing dst name x, { c with tree := t' }] ++ r)).flatMap
      fun c => c.tree.names).count m =
        ((l ++ ([c] ++ r)).flatMap fun c => c.tree.names).count m + [name].count m := by
    intro m
    simp only [List.flatMap_append, List.flatMap_cons, List.flatMap_nil, hA, hB, names_wholeTree,
      List.count_append, List.count_nil]
    omega
  have hdeclared : ∀ d ∈ l ++ ([c] ++ r), d.name ≠ name := by
    rintro d hd heq
    obtain ⟨s, hs, -⟩ := (hfits d hd).declared
    rw [heq, hnone] at hs
    cases hs
  have hunread : ((l ++ ([c] ++ r)).flatMap fun c => c.tree.names).count name = 0 := by
    refine List.count_eq_zero.mpr fun hmem => ?_
    obtain ⟨d, hd, hmem⟩ := List.mem_flatMap.mp hmem
    obtain ⟨s, hs⟩ := (hfits d hd).declared_name hmem
    rw [hnone] at hs
    cases hs
  refine ⟨fun m s hs hsynth => ?_, fun m s hs hsynth hm => ?_, fun d hd s hs hsynth => ?_⟩
  · rw [hfind] at hs
    split at hs
    · cases hs
      rfl
    · exact h.role m s hs hsynth
  · rw [hcount]
    by_cases heq : m = name
    · rw [heq, hunread, List.count_singleton_self]
    · rw [hfind, if_neg heq] at hs
      rw [h.once m s hs hsynth hm, List.count_singleton, if_neg (by simpa using Ne.symm heq)]
  · have hold : ∀ d ∈ l ++ ([c] ++ r), find' d.name = some s → d.target.perm = [] := by
      intro d hd hs
      rw [hfind, if_neg (hdeclared d hd)] at hs
      exact h.straight d hd s hs hsynth
    simp only [List.mem_append, List.mem_cons, List.not_mem_nil, or_false] at hd
    rcases hd with hd | (rfl | rfl) | hd
    · exact hold d (by simp [hd]) hs
    · rfl
    · exact hold c (by simp) hs
    · exact hold d (by simp [hd]) hs

end

/-! ## New tensors -/

/-- A synthesized tensor was added between two programs. -/
structure Introduces (p p' : Program) (name : String) (shape : Shape) : Prop where
  unused : p.find name = none
  fresh : name ∉ p.names.taken
  plain : '\x7b' ∉ name.toList
  find : ∀ m, p'.find m = if m = name then some ⟨name, shape, .synthesized⟩ else p.find m
  taken : p'.names.taken = name :: p.names.taken
  fusion : p'.fusion = p.fusion
  tidy : p'.Tidy

theorem introduces_synthesize (h : p.Tidy) {root : String} (hroot : '\x7b' ∉ root.toList)
    (shape : Shape) : Introduces p (p.synthesize root shape).2 (p.names.fresh root).1 shape :=
  ⟨h.find_fresh root, p.names.fresh_notMem root, p.names.fresh_plain hroot,
    p.find_synthesize root shape, p.names.taken_fresh root, rfl, h.synthesize root shape⟩

namespace Introduces

variable {p' q : Program} {l r : List Clause} {c : Clause} {x t' : Tree} {name : String}
  {shape : Shape}

theorem congr (h : Introduces p p' name shape) (hsym : q.symbols = p'.symbols)
    (hnames : q.names = p'.names) (hfus : q.fusion = p'.fusion) : Introduces p q name shape := by
  have hfind : q.find = p'.find := by rw [Program.find, hsym]
  exact ⟨h.unused, h.fresh, h.plain, hfind ▸ h.find, hnames ▸ h.taken, hfus.trans h.fusion,
    h.tidy.congr hsym hnames⟩

theorem extended (h : Introduces p p' name shape) : p.find.Extends p'.find :=
  extends_of_new h.unused h.find

theorem shapes_eq (h : Introduces p p' name shape) : p'.find.shapes name = some shape :=
  Symbols.shapes_eq ((h.find name).trans (if_pos rfl))

/-- The name of the new tensor is not read. -/
theorem notMem_names (h : Introduces p p' name shape) (hc : c.Fits N p.find) :
    name ∉ c.tree.names := by
  intro hmem
  obtain ⟨s, hs⟩ := hc.declared_name hmem
  rw [h.unused] at hs
  cases hs

theorem ne_of_find (h : Introduces p p' name shape) {m : String} {s : Symbol}
    (hs : p.find m = some s) : m ≠ name := by
  rintro rfl
  rw [h.unused] at hs
  cases hs

theorem symbols (h : Introduces p p' name shape) (hshape : N.Mem shape)
    (hp : ∀ m s, p.find m = some s → N.Mem s.shape) :
    ∀ m s, p'.find m = some s → N.Mem s.shape := by
  intro m s hs
  rw [h.find] at hs
  split at hs
  · cases hs
    exact hshape
  · exact hp m s hs

/-- A clause of which a part was replaced by a read of the new tensor is still well-shaped. -/
theorem fits_rewrite {Q : Node → Prop} {slot : Slot} {read : NodeId}
    (h : Introduces p p' name x.shape) (hc : c.Fits N p.find)
    (hrw : Tree.Rewrites Q x (wholeTree read name x.shape) slot c.tree t') :
    Clause.Fits N p'.find { c with tree := t' } := by
  have hc' := hc.extend h.extended
  obtain ⟨htyped, hshape⟩ := hrw.typed N.admits_operands hc'.typed
    (wholeTree_typed (hrw.typed_subtree hc.typed).mem h.shapes_eq read) rfl
  exact ⟨hc'.kind, hc'.declared, hshape.trans hc'.shape, htyped⟩

/-- Something is computed into the new tensor in front of a clause, which may then read it. -/
theorem revises (h : Introduces p p' name x.shape) (htidy : p.Tidy)
    (hfits : ∀ d ∈ l ++ ([c] ++ r), d.Fits N p.find) (dst : NodeId)
    (hx : x.Typed N.Admits p.find.shapes) (hc' : Clause.Fits N p'.find { c with tree := t' })
    (hreads : ∀ m ∈ x.names, m ∈ c.tree.names)
    (hreads' : ∀ m ∈ t'.names, m ∈ c.tree.names ∨ m = name)
    (hrun : N.Sized → ∀ {α : Type} [Scalar α] (σ : Cells α) m, m ∉ [name] →
      runClauses [computing dst name x, { c with tree := t' }] σ m = runClauses [c] σ m) :
    Revises N p (l ++ ([c] ++ r)) p'
      (l ++ ([computing dst name x, { c with tree := t' }] ++ r)) := by
  refine .of_new htidy h.fresh h.find h.taken h.fusion rfl (fun hN {α} _ σ m hm => ?run)
    (fun {K} hK hs => ?sound) (fun hl => ?loops) fun hv =>
      verified_prepend hv hfits h.unused h.plain h.find hreads hreads'
  case run =>
    refine runClauses_replace [name] (hrun hN) (fun d hd m hm hmem => ?_) σ m (by simpa using hm)
    rw [List.mem_singleton.mp hmem] at hm
    exact h.notMem_names (hfits d (by simp [hd])) hm
  case sound =>
    subst hK
    exact sound_prepend hs h.unused h.plain h.find hx hreads hc' hreads'
  case loops =>
    simp only [List.forall_mem_append, List.forall_mem_cons] at hl ⊢
    exact ⟨hl.1, ⟨trivial, hl.2.1⟩, hl.2.2⟩

end Introduces

/-- What is read where a part was replaced by a read of another tensor. -/
theorem names_rewrite {Q : Node → Prop} {slot : Slot} {read : NodeId} {x t t' : Tree}
    {name : String} {shape : Shape} (hrw : Tree.Rewrites Q x (wholeTree read name shape) slot t t') :
    (∀ m ∈ x.names, m ∈ t.names) ∧ ∀ m ∈ t'.names, m ∈ t.names ∨ m = name := by
  obtain ⟨A, B, hA, hB⟩ := hrw.names
  rw [hA, hB, names_wholeTree]
  simp only [List.mem_append, List.mem_singleton]
  exact ⟨fun m hm => .inl (.inr hm), fun m hm => by tauto⟩

/-- Moving a subexpression out puts a clause for it in front of the clause that it was a part of. -/
theorem hoist_spec {Q : Node → Prop} {l r : List Clause} {c : Clause} {x t₀ : Tree}
    {parent : NodeId} {k : Nat} (h : p.Shows N (l ++ ([c] ++ r)))
    (hrw : Tree.Rewrites Q x x (.operand parent k) c.tree t₀) :
    ∃ p' read dst name t', hoist l.length (.operand parent k) p = .ok read p' ∧
      name ∉ p.names.taken ∧
      Tree.Rewrites Q x (wholeTree read name x.shape) (.operand parent k) c.tree t' ∧
      p'.Shows N (l ++ ([computing dst name x, { c with tree := t' }] ++ r)) ∧
      Revises N p (l ++ ([c] ++ r)) p' (l ++ ([computing dst name x, { c with tree := t' }] ++ r)) ∧
      KeepsSingle p.find (l ++ ([c] ++ r)) p'.find
        (l ++ ([computing dst name x, { c with tree := t' }] ++ r)) ∧
      name ∈ p'.names.taken ∧ ∀ m s, p'.find m = some s → p.find m = some s ∨ m = name := by
  have hc : c ∈ l ++ ([c] ++ r) := by simp
  have hstored := h.laid.stored c hc
  have hfits := h.fits c hc
  have hnd : c.tree.ids.Nodup := (List.nodup_cons.mp (Unshared.nodup h.unshared)).2
  obtain ⟨n, hn, hk⟩ := hrw.operand_eq hstored
  obtain ⟨xn, xs, hx, hxn⟩ := (hrw.subtree hstored).exists_node
  have hshape : xn.shape = x.shape := by rw [hx]; rfl
  have ha : p.assignments[l.length]? = some c.assignment := by simp [h.laid.assignments]
  obtain ⟨p', hrun, hframe, hparent, hread, hdst, hass, hsym, hnames, hfus⟩ :=
    hoist_run ha hn hk hxn
  rw [hshape] at hread hdst hsym hnames
  have hnew := (introduces_synthesize h.tidy (show '\x7b' ∉ liftRoot.toList by decide) x.shape).congr
    hsym hnames hfus
  generalize (p.names.fresh liftRoot).1 = name at *
  obtain ⟨t', hrw'⟩ := hrw.other (wholeTree p.nodes.size name x.shape)
  have hx := hrw.typed_subtree hfits.typed
  have hfits' := hnew.fits_rewrite hfits hrw'
  obtain ⟨hreads, hreads'⟩ := names_rewrite hrw'
  have hlt : ∀ d ∈ l ++ ([c] ++ r), ∀ i ∈ d.ids, i < p.nodes.size := fun d hd i => h.laid.lt_size hd
  have hframe' : ∀ i ∈ c.ids, i ≠ parent → p'.nodes[i]? = p.nodes[i]? := fun i hi =>
    hframe i (hlt c hc i hi)
  have hpar : parent ∈ c.tree.ids := hrw.parent_mem
  refine ⟨p', p.nodes.size, p.nodes.size + 1, name, t', hrun, hnew.fresh, hrw',
    ⟨?laid, ?unshared, hnew.tidy, hnew.symbols hx.mem h.symbols,
      fits_prepend _ h.fits hnew.unused hnew.find hx hfits'⟩,
    hnew.revises h.tidy h.fits _ hx hfits' hreads hreads' fun hN {α} _ σ => ?run,
    single_prepend _ h.fits hnew.unused hnew.find hrw', by simp [hnew.taken], fun m s hs => ?old⟩
  case laid =>
    refine h.laid.replace _ ?_ ?_ ?_
    · rw [hass, h.laid.assignments]
      simp [Clause.assignment, hrw'.root_eq]
    · intro d hd i hi
      refine hframe i (hlt d (by simp at hd ⊢; tauto) i hi) ?_
      rintro rfl
      exact Unshared.notMem h.unshared hd hi (List.mem_cons_of_mem _ hpar)
    · intro d hd
      simp only [List.mem_cons, List.not_mem_nil, or_false] at hd
      rcases hd with rfl | rfl
      · refine ⟨hdst, (hrw.subtree hstored).frame fun i hi => ?_⟩
        refine hframe' i (List.mem_cons_of_mem _ (hrw.ids_subset i hi)) ?_
        rintro rfl
        exact hrw.parent_notMem hnd hi
      · refine ⟨(hframe' c.dst (.head _) ?_).trans (h.laid.target c hc), ?_⟩
        · rintro rfl
          exact (List.nodup_cons.mp (Unshared.nodup h.unshared)).1 hpar
        · refine hrw'.storedIn hstored hnd (.node hread rfl (by simp)) ?_ ?_
          · intro i hi _ hne
            refine hframe' i (List.mem_cons_of_mem _ hi) ?_
            rintro rfl
            exact hne k rfl
          · rintro _ _ ⟨⟩
            rw [hparent, hn]
            rfl
  case unshared =>
    rw [Unshared, (ids_hoist hrw').nodup_iff, List.nodup_cons, List.nodup_cons, List.mem_cons, not_or]
    exact ⟨⟨by simp, h.laid.notMem_ids (Nat.le_refl _)⟩, h.laid.notMem_ids (Nat.le_succ _),
      h.unshared⟩
  case run =>
    exact run_hoist hN hrw' hfits.typed hfits'.typed (hnew.notMem_names hfits) rfl hfits.shape σ
  case old =>
    rw [hnew.find] at hs
    split at hs
    · exact .inr ‹_›
    · exact .inl hs

end LoopNest.Pass
