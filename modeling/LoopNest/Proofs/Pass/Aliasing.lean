import LoopNest.Proofs.Pass.Unstacking
import LoopNest.Proofs.Tree.Alignment

/-!
# Copies of overwritten tensors

After `aliasCopy` every expression reads the tensor of its destination only at the element that is
written (`aliasCopy_spec`). The places of an expression where this fails are resolved one after the
other, in the order in which the search finds them.
-/

namespace LoopNest.Pass

variable {N : NodeClass} {p : Program} {l r : List Clause} {c : Clause}

/-! ## Reading the copy -/

/-- The node that reads another tensor of the same shape in the same way. -/
def viewOf (name : String) (n : Node) : Node :=
  { kind := .identifier, name, shape := n.shape, fixed := n.fixed, perm := n.perm }

/-- The nodes of two trees have the same kinds, in the same order. -/
def SameKinds (t t' : Tree) : Prop := t'.labels.map Node.kind = t.labels.map Node.kind

theorem SameKinds.trans {t t' t'' : Tree} (h : SameKinds t t') (h' : SameKinds t' t'') :
    SameKinds t t'' := Eq.trans h' h

theorem sameKinds_rewrites {Q : Node → Prop} {x s t t' : Tree} {slot : Slot}
    (h : Tree.Rewrites Q x s slot t t') (hs : SameKinds x s) : SameKinds t t' := by
  obtain ⟨A, A', B, h₁, h₂, h₃⟩ := h.labels
  have halike : A'.map Node.kind = A.map Node.kind := by
    clear h₁ h₂
    induction h₃ with
    | nil => rfl
    | cons h _ ih => rw [List.map_cons, List.map_cons, ih, h.kind]
  rw [SameKinds] at hs
  rw [SameKinds, h₁, h₂, List.map_append, List.map_append, List.map_append, List.map_append, halike, hs]

/-- The search finds no place of the clause that needs a copy of the destination. -/
def Compatible (c : Clause) : Prop := incompatibleAt c.target false .root c.tree = some []

theorem Compatible.aligned (h : Compatible c) {find : Symbols} (hfits : c.Fits N find) :
    c.tree.Aligned c.target := (hfits.typed.aligned h).1

/-- The first place that needs a copy reads the destination. Reading the tensor `name` there instead
leaves the places after it. -/
theorem first_incompatible {find : Symbols} {nodes : Array Node} {name : String} {first : Slot}
    {rest : List Slot} (hstored : c.tree.StoredIn nodes) (hfits : c.Fits N find) (hne : name ≠ c.name)
    (hslots : incompatibleAt c.target false .root c.tree = some (first :: rest)) (id' : NodeId) :
    ∃ id n t', n.kind = .identifier ∧ n.name = c.name ∧
      Tree.Rewrites (fun _ => True) (.node id n []) (.node id' (viewOf name n) []) first c.tree t' ∧
      incompatibleAt c.target false .root t' = some rest := by
  obtain ⟨slots, heq, hcases⟩ :=
    @Tree.StoredIn.incompatibleAt_cases c.target _ _ hstored _ _ hfits.typed false .root
  rw [hslots] at heq
  cases heq
  rcases hcases first rest rfl with ⟨rfl, rfl, id, n, htree, hkind, hread⟩ |
    ⟨parent, k, x, rfl, ⟨id, n, rfl, hkind, hread⟩, hrw⟩
  · refine ⟨id, n, .node id' (viewOf name n) [], hkind, hread, ?_, ?_⟩
    · rw [htree]
      exact .root
    · simp [incompatibleAt, viewOf, hne]
  · obtain ⟨t', hrw, hrest⟩ := hrw id' (viewOf name n) rfl hne
    exact ⟨id, n, t', hkind, hread, hrw, hrest⟩

/-- The tensor `new` is read where the tensor `old` was, both of shape `stored`. -/
structure Redirects (N : NodeClass) (old new : String) (stored : Shape) (t t' : Tree) : Prop where
  shape : t'.shape = t.shape
  kinds : SameKinds t t'
  reads : ∀ m ∈ t'.names, m ∈ t.names ∨ m = new
  count : ∀ m, m ≠ old → m ≠ new → t'.names.count m = t.names.count m
  value : N.Sized → ∀ {α : Type} [Scalar α] (σ : Cells α),
    (∀ sub, InRange stored sub → σ new sub = σ old sub) →
    ∀ idx, InRange t.shape idx → t'.eval σ idx = t.eval σ idx

namespace Redirects

variable {old new : String} {stored : Shape} {t t' t'' : Tree}

theorem refl (t : Tree) : Redirects N old new stored t t :=
  ⟨rfl, rfl, fun _ => .inl, fun _ _ _ => rfl, fun _ _ _ _ _ _ _ => rfl⟩

theorem trans (h : Redirects N old new stored t t') (h' : Redirects N old new stored t' t'') :
    Redirects N old new stored t t'' where
  shape := h'.shape.trans h.shape
  kinds := h.kinds.trans h'.kinds
  reads m hm := (h'.reads m hm).elim (h.reads m) .inr
  count m hold hnew := (h'.count m hold hnew).trans (h.count m hold hnew)
  value hN _ _ σ hσ idx hidx :=
    (h'.value hN σ hσ idx (h.shape ▸ hidx)).trans (h.value hN σ hσ idx hidx)

theorem of_rewrites {S : Shapes} {id id' : NodeId} {n : Node} {slot : Slot}
    (h : Tree.Rewrites (fun _ => True) (.node id n []) (.node id' (viewOf new n) []) slot t t')
    (hkind : n.kind = .identifier) (hviews : n.Views stored) (ht : t.Typed N.Admits S)
    (ht' : t'.Typed N.Admits S) (hshape : t'.shape = t.shape) :
    Redirects N n.name new stored t t' := by
  obtain ⟨A, B, hA, hB⟩ := h.names
  refine ⟨hshape, sameKinds_rewrites h (by simp [SameKinds, viewOf, hkind]), fun m hm => ?reads,
    fun m hold hnew => ?count, fun hN α _ σ hσ idx hidx => ?value⟩
  case reads =>
    simp only [hB, Tree.names_node, viewOf, if_true, List.flatMap_nil, List.append_nil,
      List.mem_append, List.mem_singleton] at hm
    rw [hA]
    simp only [List.mem_append]
    tauto
  case count =>
    have hold : [n.name].count m = 0 := List.count_eq_zero.mpr (by simpa using hold)
    have hnew : [new].count m = 0 := List.count_eq_zero.mpr (by simpa using hnew)
    simp only [hA, hB, Tree.names_node, viewOf, hkind, if_true, List.flatMap_nil, List.append_nil,
      List.count_append, hold, hnew]
  case value =>
    refine (h.eval_eq hN.admits ht ht' rfl (fun _ _ => rfl) (fun i hi => ?_) hidx).symm
    obtain ⟨sub, hsub, hin⟩ := hviews.subscript_inRange hi
    have hload : ∀ m : Node, m.fixed = n.fixed → m.perm = n.perm → loadAt σ m i = σ m.name sub := by
      intro m hfixed hperm
      rw [loadAt, Node.subscript, hfixed, hperm, ← Node.subscript, hsub]
      rfl
    rw [Tree.eval_ident hkind, Tree.eval_ident rfl, hload n rfl rfl, hload (viewOf new n) rfl rfl]
    exact (hσ sub hin).symm

end Redirects

/-- What is read at a place of a tree can be read as well from a tensor of the same shape. -/
theorem typed_viewOf {S : Shapes} {id i : NodeId} {n : Node} {name : String} {stored : Shape}
    (h : (Tree.node id n []).Typed N.Admits S) (hkind : n.kind = .identifier) (hold : S n.name = some stored)
    (hnew : S name = some stored) :
    n.Views stored ∧ (Tree.node i (viewOf name n) []).Typed N.Admits S := by
  cases h with
  | node hadmits hfit _ =>
    cases hfit with
    | identifier _ hS hviews =>
      rw [hold] at hS
      cases hS
      exact ⟨hviews, .node ⟨hadmits.1, fun _ => hadmits.2 hkind⟩ (.identifier rfl hnew hviews)
        (by simp)⟩
    | constant hk _ => simp [hkind] at hk

/-- The first place that needs a copy is resolved. -/
theorem redirect_first {name : String} {stored : Shape} {first : Slot} {rest : List Slot}
    (hlaid : p.Laid (l ++ ([c] ++ r))) (hun : Unshared (l ++ ([c] ++ r))) (hfits : c.Fits N p.find)
    (hdst : p.find.shapes c.name = some stored) (hname : p.find.shapes name = some stored)
    (hne : name ≠ c.name)
    (hslots : incompatibleAt c.target false .root c.tree = some (first :: rest)) :
    ∃ q t', redirect l.length name (first :: rest) p = redirect l.length name rest q ∧
      q.Laid (l ++ ([{ c with tree := t' }] ++ r)) ∧ Unshared (l ++ ([{ c with tree := t' }] ++ r)) ∧
      (q.symbols = p.symbols ∧ q.names = p.names ∧ q.fusion = p.fusion) ∧
      Clause.Fits N p.find { c with tree := t' } ∧ Redirects N c.name name stored c.tree t' ∧
      incompatibleAt c.target false .root t' = some rest := by
  have hc : c ∈ l ++ ([c] ++ r) := by simp
  obtain ⟨id, n, t', hkind, hread, hrw, hrest⟩ :=
    first_incompatible (hlaid.stored c hc) hfits hne hslots p.nodes.size
  obtain ⟨hviews, hy⟩ := typed_viewOf (i := p.nodes.size) (hrw.typed_subtree hfits.typed) hkind
    (hread ▸ hdst) hname
  obtain ⟨htyped, hshape⟩ := hrw.typed N.admits_operands hfits.typed hy rfl
  have hgrow := Program.Grows.push p (viewOf name n)
  obtain ⟨q, hset, hlaid', hsym, hnames, hfus⟩ := hlaid.setSlot hun hrw hgrow.assignments
    (fun i hi _ => hgrow.getElem?_eq hi) (.node (Program.add_node p _) rfl (by simp)) (by simp)
  refine ⟨q, t', ?run, hlaid', ?unshared, ⟨hsym, hnames, hfus⟩,
    ⟨hfits.kind, hfits.declared, hshape.trans hfits.shape, htyped⟩,
    hread ▸ .of_rewrites hrw hkind hviews hfits.typed htyped hshape, hrest⟩
  case run =>
    have ha : p.assignments[l.length]? = some c.assignment := by simp [hlaid.assignments]
    have hnode : p.nodes[id]? = some n := (hrw.subtree (hlaid.stored c hc)).node_eq
    rw [redirect]
    refine (Edit.bind_ok (Edit.assignment_run ha)).trans ?_
    refine (Edit.bind_ok (Edit.query_run (hlaid.slotNode?_eq hc hrw))).trans ?_
    refine (Edit.bind_ok (Edit.node_run hnode)).trans ?_
    refine (Edit.bind_ok (Edit.addView_run _ _ _ _ _)).trans ?_
    exact Edit.bind_ok hset
  case unshared =>
    refine hun.rewrite hrw (by simp) fun i hi => .inr (hlaid.notMem_ids ?_)
    have hi : i = p.nodes.size := by simpa using hi
    exact Nat.le_of_eq hi.symm

/-- The places that need a copy are resolved. The tensor `name` must hold what the tensor of the
destination holds. -/
theorem redirect_spec {name : String} {stored : Shape} {slots : List Slot} {p : Program} {c : Clause}
    (hlaid : p.Laid (l ++ ([c] ++ r))) (hun : Unshared (l ++ ([c] ++ r))) (hfits : c.Fits N p.find)
    (hdst : p.find.shapes c.name = some stored) (hname : p.find.shapes name = some stored)
    (hne : name ≠ c.name) (hslots : incompatibleAt c.target false .root c.tree = some slots) :
    ∃ p' t', redirect l.length name slots p = .ok () p' ∧
      p'.Laid (l ++ ([{ c with tree := t' }] ++ r)) ∧ Unshared (l ++ ([{ c with tree := t' }] ++ r)) ∧
      (p'.symbols = p.symbols ∧ p'.names = p.names ∧ p'.fusion = p.fusion) ∧
      Clause.Fits N p.find { c with tree := t' } ∧ Compatible { c with tree := t' } ∧
      Redirects N c.name name stored c.tree t' := by
  induction slots generalizing p c with
  | nil => exact ⟨p, c.tree, rfl, hlaid, hun, ⟨rfl, rfl, rfl⟩, hfits, hslots, .refl _⟩
  | cons first rest ih =>
    obtain ⟨q, t₁, hstep, hlaid₁, hun₁, ⟨hsym, hnames, hfus⟩, hfits₁, hred, hrest⟩ :=
      redirect_first hlaid hun hfits hdst hname hne hslots
    have hfind : q.find = p.find := by rw [Program.find, hsym]
    rw [← hfind] at hfits₁ hdst hname
    obtain ⟨p', t', hrun, hlaid₂, hun₂, ⟨hsym₂, hnames₂, hfus₂⟩, hfits₂, hcompat, hred₂⟩ :=
      ih hlaid₁ hun₁ hfits₁ hdst hname hne hrest
    exact ⟨p', t', hstep.trans hrun, hlaid₂, hun₂,
      ⟨hsym₂.trans hsym, hnames₂.trans hnames, hfus₂.trans hfus⟩, hfind ▸ hfits₂, hcompat,
      hred.trans hred₂⟩

/-! ## The copy -/

/-- Reading a copy of the destination does not change what an assignment does. -/
theorem run_copy {α : Type} [Scalar α] {name : String} {stored : Shape} {copy read : NodeId} {t' : Tree}
    (hne : name ≠ c.name) (hnew : name ∉ c.tree.names)
    (hshape : c.tree.shape = c.target.shape)
    (heval : ∀ σ : Cells α, (∀ sub, InRange stored sub → σ name sub = σ c.name sub) →
      ∀ idx, InRange c.tree.shape idx → t'.eval σ idx = c.tree.eval σ idx) (σ : Cells α) :
    ∀ m, m ∉ [name] → runClauses [computing copy name (wholeTree read c.name stored),
      { c with tree := t' }] σ m = runClauses [c] σ m := by
  intro m hm
  have hother : ∀ m, m ≠ name →
      (computing copy name (wholeTree read c.name stored)).step σ m = σ m :=
    fun m hm => Clause.step_of_ne hm σ
  have hcopy : ∀ sub, InRange stored sub →
      (computing copy name (wholeTree read c.name stored)).step σ name sub =
        σ c.name sub := by
    intro sub hsub
    rw [← wholeTree_eval σ read c.name stored sub]
    exact step_whole σ hsub
  funext sub
  simp only [runClauses_cons, runClauses_nil]
  refine (@Clause.step_congr α _ c { c with tree := t' } _ _ m sub rfl
    (congrFun (hother m (by simpa using hm)) sub).symm fun idx _ hown => ?_).symm
  rw [heval _ (fun sub hsub => ?_) idx ?_]
  · rw [Tree.eval_congr_names fun n hn => (hother n (by rintro rfl; exact hnew hn)).symm]
  · rw [hshape]
    exact (Node.own?_eq_some_iff.mp hown).2
  · rw [hcopy sub hsub, hother c.name hne.symm]

/-- The program after a copy of a tensor was put in front of the clause at position `i`. -/
def withCopy (p : Program) (i : Nat) (name old : String) (shape : Shape) : Program :=
  (((p.add (whole name shape)).2.add (whole old shape)).2).insertAt i
    [{ dst := p.nodes.size, expr := p.nodes.size + 1 }]

theorem laid_withCopy (h : p.Laid (l ++ ([c] ++ r))) (name old : String) (shape : Shape) :
    (withCopy p l.length name old shape).Laid
      (l ++ ([computing p.nodes.size name (wholeTree (p.nodes.size + 1) old shape), c] ++ r)) := by
  have hgrow := (Program.Grows.push p (whole name shape)).trans (.push _ (whole old shape))
  have hsize : (p.add (whole name shape)).2.nodes.size = p.nodes.size + 1 := by simp [Program.add]
  refine h.replace _ ?_ (fun d hd i hi => hgrow.getElem?_eq (h.lt_size ?_ hi)) fun d hd => ?_
  · show p.assignments.take l.length ++ _ ++ p.assignments.drop l.length = _
    rw [h.assignments, ← List.map_take, ← List.map_drop, List.take_left, List.drop_left]
    simp [Clause.assignment, wholeTree]
  · simp only [List.mem_append] at hd ⊢
    exact hd.imp_right .inr
  · simp only [List.mem_cons, List.not_mem_nil, or_false] at hd
    rcases hd with rfl | rfl
    · refine ⟨(Program.Grows.push _ (whole old shape)).node_eq (Program.add_node p _), ?_⟩
      refine .node ?_ rfl (by simp)
      rw [← hsize]
      exact Program.add_node (p.add (whole name shape)).2 _
    · exact ⟨hgrow.node_eq (h.target d (by simp)), hgrow.storedIn (h.stored d (by simp))⟩

theorem unshared_withCopy (h : p.Laid (l ++ ([c] ++ r))) (hun : Unshared (l ++ ([c] ++ r)))
    (name old : String) (shape : Shape) : Unshared (l ++ ([computing p.nodes.size name
      (wholeTree (p.nodes.size + 1) old shape), c] ++ r)) := by
  have hperm : ((l ++ ([computing p.nodes.size name
      (wholeTree (p.nodes.size + 1) old shape), c] ++ r)).flatMap Clause.ids).Perm
      (p.nodes.size :: (p.nodes.size + 1) :: (l ++ ([c] ++ r)).flatMap Clause.ids) := by
    rw [List.perm_iff_count]
    intro i
    simp only [List.flatMap_append, List.flatMap_cons, List.flatMap_nil, Clause.ids, wholeTree,
      Tree.ids_node, List.count_append, List.count_cons, List.count_nil]
    omega
  rw [Unshared, hperm.nodup_iff, List.nodup_cons, List.nodup_cons, List.mem_cons, not_or]
  exact ⟨⟨by simp, h.notMem_ids (Nat.le_refl _)⟩, h.notMem_ids (Nat.le_succ _), hun⟩

/-- The destination that is copied is not a synthesized tensor, and the others are read as often as
before. -/
theorem single_copy {K : ShapeClass} {find find' : Symbols} {name : String} {stored : Shape}
    {t' : Tree} (copy read : NodeId) (hsound : Sound K find (l ++ ([c] ++ r)))
    (hnone : find name = none)
    (hfind : ∀ m, find' m = if m = name then some ⟨name, stored, .synthesized⟩ else find m)
    (hself : c.name ∈ c.tree.names)
    (hcount : ∀ m, m ≠ c.name → m ≠ name → t'.names.count m = c.tree.names.count m) :
    KeepsOldSingle find (l ++ ([c] ++ r)) find' (l ++ ([computing copy name
      (wholeTree read c.name stored), { c with tree := t' }] ++ r)) := by
  intro exempt h
  have hold : ∀ {m s}, find m ≠ none → find' m = some s → m ≠ name ∧ find m = some s := by
    intro m s hm hs
    have hne : m ≠ name := by
      rintro rfl
      exact hm hnone
    exact ⟨hne, by rwa [hfind, if_neg hne] at hs⟩
  have hstraight : ∀ d ∈ l ++ ([c] ++ r), ∀ s, find' d.name = some s → s.role.isSynthesized →
      d.target.perm = [] := by
    intro d hd s hs hsynth
    obtain ⟨s', hs', -⟩ := (hsound.fits d hd).declared
    exact h.straight d hd s (hold (by simp [hs']) hs).2 hsynth
  refine ⟨fun m s hs hsynth => ?_, fun m s hs hsynth hexempt => ?_, fun d hd s hs hsynth => ?_⟩
  · rw [hfind] at hs
    split at hs
    · cases hs
      rfl
    · exact h.role m s hs hsynth
  · rw [not_or] at hexempt
    obtain ⟨hne, hs⟩ := hold hexempt.2 hs
    have hother : m ≠ c.name := (h.name_ne hsound hself · hsynth (.head _) rfl) ∘ (· ▸ hs)
    have hread : [c.name].count m = 0 := List.count_eq_zero.mpr (by simpa using hother)
    have honce := h.once m s hs hsynth hexempt.1
    simp only [List.flatMap_append, List.flatMap_cons, List.flatMap_nil, List.count_append,
      List.append_nil, names_wholeTree, hread, hcount m hother hne, Nat.zero_add] at honce ⊢
    exact honce
  · simp only [List.mem_append, List.mem_cons, List.not_mem_nil, or_false] at hd
    rcases hd with hd | (rfl | rfl) | hd
    · exact hstraight d (by simp [hd]) s hs hsynth
    · rfl
    · exact hstraight c (by simp) s hs hsynth
    · exact hstraight d (by simp [hd]) s hs hsynth

theorem Flat.of_sameKinds {pred : NodeKind → Bool} {nodes nodes' : Array Node} {c' : Clause}
    (h : Flat pred c) (hc : c.tree.StoredIn nodes) (hc' : c'.tree.StoredIn nodes')
    (hkinds : SameKinds c.tree c'.tree) : Flat pred c' := by
  obtain ⟨n, ts, htree, -⟩ := hc.exists_node
  obtain ⟨n', ts', htree', -⟩ := hc'.exists_node
  rw [SameKinds, Tree.labels_eq_cons htree, Tree.labels_eq_cons htree', List.map_cons, List.map_cons,
    List.cons.injEq] at hkinds
  refine ⟨fun m hm => ?_, ?_⟩
  · have hmem : m.kind ∈ c.tree.inner.map Node.kind := hkinds.2 ▸ List.mem_map_of_mem hm
    obtain ⟨m₀, hm₀, heq⟩ := List.mem_map.mp hmem
    rw [← heq]
    exact h.rooted m₀ hm₀
  · have hroot := h.unstacked
    rw [htree, Tree.kind_node] at hroot
    rwa [htree', Tree.kind_node, hkinds.1]

/-- Flat clauses are replaced by flat ones, whatever is selected. -/
def KeepsFlat (cs cs' : List Clause) : Prop :=
  ∀ pred, SelectsStacks pred → (∀ c ∈ cs, Flat pred c) → ∀ c ∈ cs', Flat pred c

/-- A clause is made compatible, if need be with a copy of its destination in front. -/
theorem copyAt_spec (h : p.Shows N (l ++ ([c] ++ r))) :
    ∃ p' new b, copyAt l.length p = .ok b p' ∧ (if b then 2 else 1) = new.length ∧
      p'.Shows N (l ++ (new ++ r)) ∧ Revises N p (l ++ ([c] ++ r)) p' (l ++ (new ++ r)) ∧
      (∀ {K : ShapeClass}, N = K.nodes → Sound K p.find (l ++ ([c] ++ r)) →
        KeepsOldSingle p.find (l ++ ([c] ++ r)) p'.find (l ++ (new ++ r))) ∧
      (∀ d ∈ new, Compatible d) ∧ KeepsFlat [c] new := by
  have hc : c ∈ l ++ ([c] ++ r) := by simp
  have hfits := h.fits c hc
  have hstored := h.laid.stored c hc
  have ha : p.assignments[l.length]? = some c.assignment := by simp [h.laid.assignments]
  obtain ⟨slots, hslots, -⟩ :=
    @Tree.StoredIn.incompatibleAt_cases c.target _ _ hstored _ _ hfits.typed false .root
  have hquery : incompatible p c.assignment = some slots := by
    rw [incompatible, h.laid.dst?_eq hc, show c.assignment.expr = c.tree.root from rfl,
      h.laid.tree_eq hc]
    exact hslots
  cases slots with
  | nil =>
    refine ⟨p, [c], false, ?_, rfl, h, .refl _ _ _, fun _ _ => .refl _ _, by simpa [Compatible] using hslots,
      fun _ _ hflat => hflat⟩
    rw [copyAt, Edit.bind_ok (Edit.assignment_run ha)]
    refine (Edit.bind_ok (Edit.query_run hquery)).trans ?_
    rfl
  | cons first rest =>
    obtain ⟨s, hs, hviews, hrole⟩ := hfits.declared
    have hstoredShape : (p.storedShape? c.target).getD [] = s.shape := by
      rw [Program.storedShape?, show p.symbols.find? c.target.name = some s from hs]
      rfl
    have hlaid : (p.synthesize copyRoot s.shape).2.Laid (l ++ ([c] ++ r)) :=
      ⟨h.laid.assignments, h.laid.target, h.laid.stored⟩
    have hsynth : Edit.synthesize copyRoot s.shape p = .ok
        ⟨(p.names.fresh copyRoot).1, s.shape, .synthesized⟩ (p.synthesize copyRoot s.shape).2 := rfl
    have hnew₁ := introduces_synthesize h.tidy (show '\x7b' ∉ copyRoot.toList by decide) s.shape
    generalize (p.synthesize copyRoot s.shape).2 = p₁ at *
    generalize (p.names.fresh copyRoot).1 = name at *
    have hne : name ≠ c.name := (hnew₁.ne_of_find hs).symm
    obtain ⟨p₂, t', hrun, hlaid₂, hun₂, ⟨hsym₂, hnames₂, hfus₂⟩, hfits₂, hcompat, hred⟩ :=
      redirect_spec hlaid h.unshared (hfits.extend hnew₁.extended)
        (Symbols.shapes_eq (hnew₁.extended _ _ hs)) hnew₁.shapes_eq hne hslots
    have hself : c.name ∈ c.tree.names := by
      obtain ⟨_, n, _, hkind, hread, hrw, -⟩ := first_incompatible hstored hfits hne hslots 0
      obtain ⟨A, B, hA, -⟩ := hrw.names
      rw [hA]
      simp [Tree.names_node, hkind, hread]
    have hx := wholeTree_typed (h.symbols _ s hs) (Symbols.shapes_eq hs) (p₂.nodes.size + 1)
    have hxreads : ∀ m ∈ (wholeTree (p₂.nodes.size + 1) c.name s.shape).names,
        m ∈ c.tree.names := by simpa using hself
    have hnew : Introduces p (withCopy p₂ l.length name c.name s.shape) name s.shape :=
      hnew₁.congr hsym₂ hnames₂ hfus₂
    have hfind₂ : (withCopy p₂ l.length name c.name s.shape).find = p₁.find :=
      congrArg SymbolTable.find? hsym₂
    have hfits' := hfind₂ ▸ hfits₂
    refine ⟨withCopy p₂ l.length name c.name s.shape, [_, _], true, ?run, rfl,
      ⟨laid_withCopy hlaid₂ _ _ _, unshared_withCopy hlaid₂ hun₂ _ _ _, hnew.tidy,
        hnew.symbols (h.symbols _ s hs) h.symbols,
        fits_prepend _ h.fits hnew.unused hnew.find hx hfits'⟩,
      hnew.revises h.tidy h.fits _ hx hfits' hxreads hred.reads fun hN {α} _ σ => ?value,
      fun _ hsound => single_copy _ _ hsound hnew.unused hnew.find hself hred.count,
      ?compatible, fun pred hpred hflat => ?flat⟩
    case run =>
      rw [copyAt, Edit.bind_ok (Edit.assignment_run ha)]
      refine (Edit.bind_ok (Edit.query_run hquery)).trans ?_
      refine (Edit.bind_ok (Edit.query_run (h.laid.dst?_eq hc))).trans ?_
      refine (Edit.bind_ok (Edit.query_some_run _)).trans ?_
      rw [hstoredShape]
      refine (Edit.bind_ok hsynth).trans ?_
      refine (Edit.bind_ok hrun).trans ?_
      refine (Edit.bind_ok (Edit.addIdent_run _ _ _)).trans ?_
      refine (Edit.bind_ok (Edit.addIdent_run _ _ _)).trans ?_
      refine (Edit.bind_ok (Edit.change_some_run _)).trans ?_
      simp only [Program.addIdent, Program.add, Array.size_push]
      rfl
    case value => exact run_copy hne (hnew.notMem_names hfits) hfits.shape (fun σ => hred.value hN σ) σ
    case compatible =>
      intro d hd
      simp only [List.mem_cons, List.not_mem_nil, or_false] at hd
      rcases hd with rfl | rfl
      · simp [Compatible, incompatibleAt, wholeTree, whole, hne.symm]
      · exact hcompat
    case flat =>
      intro d hd
      simp only [List.mem_cons, List.not_mem_nil, or_false] at hd
      rcases hd with rfl | rfl
      · exact ⟨(wholeTree_plain hpred _ _ _).rooted, by simp [wholeTree, whole]⟩
      · exact (hflat c (by simp)).of_sameKinds hstored (hlaid₂.stored _ (by simp)) hred.kinds

theorem copyFrom_spec {rest before : List Clause} {p : Program} (h : p.Shows N (before ++ rest))
    (hbefore : ∀ c ∈ before, Compatible c) :
    ∃ p' new, copyFrom rest.length before.length p = .ok () p' ∧ p'.Shows N (before ++ new) ∧
      Revises N p (before ++ rest) p' (before ++ new) ∧
      (∀ {K : ShapeClass}, N = K.nodes → Sound K p.find (before ++ rest) →
        KeepsOldSingle p.find (before ++ rest) p'.find (before ++ new)) ∧
      (∀ c ∈ before ++ new, Compatible c) ∧ KeepsFlat rest new := by
  induction rest generalizing before p with
  | nil =>
    exact ⟨p, [], rfl, h, .refl _ _ _, fun _ _ => .refl _ _, by simpa using hbefore,
      fun _ _ hflat => hflat⟩
  | cons c rest ih =>
    obtain ⟨p₁, new, b, hrun₁, hlen, hshows₁, hrev₁, hsingle₁, hnew, hflat₁⟩ :=
      copyAt_spec (r := rest) h
    have hassoc : before ++ (new ++ rest) = (before ++ new) ++ rest := by simp
    rw [hassoc] at hshows₁ hrev₁ hsingle₁
    obtain ⟨p₂, new₂, hrun₂, hshows₂, hrev₂, hsingle₂, hcs, hflat₂⟩ := ih hshows₁
      fun d hd => (List.mem_append.mp hd).elim (hbefore d) (hnew d)
    have hassoc₂ : (before ++ new) ++ new₂ = before ++ (new ++ new₂) := by simp
    rw [hassoc₂] at hshows₂ hrev₂ hsingle₂ hcs
    refine ⟨p₂, new ++ new₂, ?_, hshows₂, hrev₁.trans hrev₂, fun hK hs => ?_, hcs,
      fun pred hpred hflat d hd => ?_⟩
    · rw [List.length_cons, copyFrom, Edit.bind_ok hrun₁, ← hrun₂, List.length_append, ← hlen]
      cases b <;> rfl
    · exact (hsingle₁ hK hs).trans (hsingle₂ hK (hrev₁.sound hK hs)) hrev₁.extended
    · rcases List.mem_append.mp hd with hd | hd
      · exact hflat₁ pred hpred (by simpa using hflat c (.head _)) d hd
      · exact hflat₂ pred hpred (fun e he => hflat e (List.mem_cons_of_mem _ he)) d hd

/-- The pass succeeds, and no clause needs a copy of its destination afterwards. -/
theorem aliasCopy_spec {cs : List Clause} (h : p.Shows N cs) (hv : Verified p.find cs) :
    ∃ p' cs', aliasCopy p = .ok () p' ∧ p'.Shows N cs' ∧ Revises N p cs p' cs' ∧
      (∀ {K : ShapeClass}, N = K.nodes → Sound K p.find cs →
        KeepsOldSingle p.find cs p'.find cs') ∧
      (∀ c ∈ cs', Compatible c) ∧ KeepsFlat cs cs' := by
  obtain ⟨p', cs', hrun, hshows, hrev, hsingle, hcs, hflat⟩ :=
    copyFrom_spec (show p.Shows N ([] ++ cs) from h) (by simp)
  refine ⟨p', cs', ?_, hshows, hrev, hsingle, hcs, hflat⟩
  rw [aliasCopy, Edit.bind_ok (Edit.query_some_run _), h.laid.assignments, List.length_map]
  refine (Edit.bind_ok hrun).trans (Edit.verify_run ?_)
  exact Program.verify_eq_none hshows.laid hshows.tidy hshows.fits (hrev.verified hv) nofun rfl
    (fun _ => hshows.unshared) (by simp)

end LoopNest.Pass
