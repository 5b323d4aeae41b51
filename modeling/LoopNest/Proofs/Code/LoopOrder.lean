import LoopNest.Proofs.Accesses
import LoopNest.Proofs.Code.Files
import LoopNest.Proofs.Code.Opening
import LoopNest.Proofs.Meaning.Fusing

/-!
# The loops of the interpreter in the code

The loops around each store in the code of a program are those by which the interpreter runs the
assignment, in the same order (`emit_loop_order`). The interpreter reads the order off the list of
accesses; the writer opens a loop when it writes the first access that needs it. Both visit the accesses
in depth-first order, with the write last, and a loop that is open is not opened again, so that what is
left of both lists is the same (`newLoops_axes`).
-/

namespace LoopNest

namespace C

/-! ## Names of indices -/

/-- The names that code has for the indices of an assignment: one for each axis of the result, and one
for each contracted index. -/
structure Naming where
  axes : List String
  sum : Nat → String

namespace Naming

/-- What is written for an index. -/
def index (ν : Naming) : IndexName → Index
  | .result k => .loop (ν.axes[k]?.getD "")
  | .sum t => .loop (ν.sum t)
  | .fixed k => .fixed k

/-- The loop over an axis of a result. -/
def axisLoop (ν : Naming) (shape : Shape) (k : Nat) : Option (String × Int) := do
  return (← ν.axes[k]?, ← shape[k]?)

/-- The loops over contracted indices. -/
def sumLoops (ν : Naming) (es : List Int) : Loops := ((List.range es.length).map ν.sum).zip es

variable {ν : Naming} {shape : Shape} {axis : Option Nat} {w : Writer}

theorem map_index_results (ν : Naming) :
    (IndexName.results ν.axes.length).map ν.index = ν.axes.map .loop := by
  rw [IndexName.results, List.map_map]
  refine List.ext_getElem (by simp) fun i hi hi' => ?_
  rw [List.length_map] at hi'
  simp [index, hi']

/-- The loops that are opened for some axes, one after the other, are the loops over these axes, without
copies and without the axis of the shared loop. -/
theorem newLoops_axes (hnd : ν.axes.Nodup) (hlen : ν.axes.length = shape.length)
    (hopen : ∀ (k : Nat) name, ν.axes[k]? = some name → (w.isOpen name = true ↔ axis = some k))
    (hext : ∀ (k : Nat) name d, ν.axes[k]? = some name → shape[k]? = some d → axis ≠ some k →
      w.extentOf name = d) (ks : List Nat) (hks : ∀ k ∈ ks, k < shape.length) :
    (ks.eraseDups.filter (some · ≠ axis)).mapM (ν.axisLoop shape) =
      some (w.newLoops (ks.filterMap (ν.axes[·]?))) := by
  let name (k : Nat) : String := ν.axes[k]?.getD ""
  have hname : ∀ k ∈ ks, ν.axes[k]? = some (name k) := by
    intro k hk
    show ν.axes[k]? = some (ν.axes[k]?.getD "")
    rw [List.getElem?_eq_getElem (hlen ▸ hks k hk), Option.getD_some]
  have hnames : ks.filterMap (ν.axes[·]?) = ks.map name := by
    rw [List.filterMap_congr hname, ← List.filterMap_eq_map]
    rfl
  have hclosed : (ks.map name).filter (!w.isOpen ·) = (ks.filter (some · ≠ axis)).map name := by
    rw [List.filter_map]
    refine congrArg (List.map name) (List.filter_congr fun k hk => ?_)
    rw [Function.comp_apply, Bool.eq_iff_iff, Bool.not_eq_true', ← Bool.not_eq_true, hopen k _ (hname k hk),
      decide_eq_true_eq, ne_comm]
  have hinj : ∀ k ∈ ks.filter (some · ≠ axis), ∀ j ∈ ks.filter (some · ≠ axis), name k = name j → k = j := by
    intro k hk j hj heq
    have hk' := List.mem_of_mem_filter hk
    have hj' := List.mem_of_mem_filter hj
    refine (List.getElem?_inj (hlen ▸ hks k hk') hnd).mp ?_
    rw [hname k hk', hname j hj', heq]
  rw [Writer.newLoops, hnames, hclosed, eraseDups_map hinj, List.map_map, eraseDups_filter]
  refine mapM_eq_some_map fun k hk => ?_
  obtain ⟨hmem, hne⟩ := List.mem_filter.mp hk
  have hk' := List.mem_eraseDups.mp hmem
  have hd := List.getElem?_eq_getElem (hks k hk')
  rw [axisLoop, hname k hk', hd, Function.comp_apply,
    hext k _ _ (hname k hk') hd fun heq => by simp [heq] at hne]
  rfl

/-- An index needs the loop of the axis that it stands for. -/
theorem loopName?_index (hsum : ∀ t, ν.sum t ∉ ν.axes) {i : IndexName}
    (hconfined : ν.index i ∈ ν.axes.map .loop ∨ ∃ k, 0 ≤ k ∧ ν.index i = .fixed k)
    (haxis : ∀ k ∈ i.axis?, k < ν.axes.length) :
    (ν.index i).loopName? = i.axis?.bind (ν.axes[·]?) := by
  cases i with
  | result k =>
    have hk := List.getElem?_eq_getElem (haxis k rfl)
    simp [index, Index.loopName?, IndexName.axis?, hk]
  | sum t =>
    rcases hconfined with hmem | ⟨k, -, heq⟩
    · obtain ⟨name, hname, heq⟩ := List.mem_map.mp hmem
      cases heq
      exact absurd hname (hsum t)
    · cases heq
  | fixed k =>
    rcases hconfined with hmem | ⟨j, hj, heq⟩
    · obtain ⟨name, -, heq⟩ := List.mem_map.mp hmem
      cases heq
    · cases heq
      simp [index, Index.loopName?, IndexName.axis?, Int.not_lt.mpr hj]

/-- The indices of accesses need the loops of the axes that they stand for. -/
theorem loopNames_index (hsum : ∀ t, ν.sum t ∉ ν.axes) {is : List IndexName}
    (hconfined : ∀ i ∈ is.map ν.index, i ∈ ν.axes.map .loop ∨ ∃ k, 0 ≤ k ∧ i = .fixed k)
    (haxis : ∀ i ∈ is, ∀ k ∈ i.axis?, k < ν.axes.length) :
    loopNames (is.map ν.index) = (is.filterMap IndexName.axis?).filterMap (ν.axes[·]?) := by
  rw [loopNames, List.filterMap_map, List.filterMap_filterMap]
  exact List.filterMap_congr fun i hi =>
    loopName?_index hsum (hconfined _ (List.mem_map_of_mem hi)) (haxis i hi)

theorem loopNames_accesses (hsum : ∀ t, ν.sum t ∉ ν.axes) (accs : List (Access IndexName))
    (hconfined : ∀ acc ∈ accs.map (Access.map ν.index), ∀ i ∈ acc.index,
      i ∈ ν.axes.map .loop ∨ ∃ k, 0 ≤ k ∧ i = .fixed k)
    (haxis : ∀ acc ∈ accs, ∀ i ∈ acc.index, ∀ k ∈ i.axis?, k < ν.axes.length) :
    (accs.map (Access.map ν.index)).flatMap (fun acc => loopNames acc.index) =
      ((accs.flatMap (·.index)).filterMap IndexName.axis?).filterMap (ν.axes[·]?) := by
  rw [List.flatMap_map, List.filterMap_flatMap, List.filterMap_flatMap]
  exact List.flatMap_congr fun acc hacc =>
    loopNames_index hsum (hconfined _ (List.mem_map_of_mem hacc)) (haxis acc hacc)

end Naming

end C

/-! ## The order of the interpreter -/

namespace Program.Places

variable {N : NodeClass} {p : Program} {a : Assignment} {c : Clause} (h : p.Places a c)
include h

/-- A contraction is run by loops over the axes in order. -/
theorem loopOrder_contraction (hk : c.tree.kind = .contraction) : p.loopOrder a =
    some ((List.range c.target.shape.length).eraseDups.filter (some · ≠ a.fuseAxis)) := by
  obtain ⟨n, hn, hkind⟩ := h.node?_eq
  have haxes : (IndexName.results c.target.shape.rank).filterMap IndexName.axis? =
      List.range c.target.shape.length := by
    rw [IndexName.results, List.filterMap_map]
    exact List.filterMap_some
  simp only [loopOrder, h.dst?_eq, hn, hkind.trans hk, if_true, Option.bind_eq_bind, Option.bind_some,
    Option.pure_def, haxes]

/-- Any other assignment is run by loops over the axes in the order in which its reads and then its
write use them: every axis is used by the write. -/
theorem loopOrder_accesses (hk : c.tree.kind ≠ .contraction) {write : Access IndexName}
    {reads : List (Access IndexName)} (haccesses : p.accesses a = some (write :: reads))
    (hwrite : ∀ k < c.target.shape.length, .result k ∈ write.index) : p.loopOrder a =
      some ((((reads ++ [write]).flatMap (·.index)).filterMap IndexName.axis?).eraseDups.filter
        (some · ≠ a.fuseAxis)) := by
  obtain ⟨n, hn, hkind⟩ := h.node?_eq
  have hkind' : n.kind ≠ .contraction := hkind ▸ hk
  have hall : (((IndexName.results c.target.shape.rank).filterMap IndexName.axis?).removeAll
      (((reads ++ [write]).flatMap (·.index)).filterMap IndexName.axis?)).eraseDups = [] := by
    refine (congrArg List.eraseDups (List.filter_eq_nil_iff.mpr fun k hk => ?_)).trans List.eraseDups_nil
    obtain ⟨i, hi, hik⟩ := List.mem_filterMap.mp hk
    obtain ⟨k', hk', rfl⟩ := List.mem_map.mp hi
    cases hik
    have hmem : k ∈ ((reads ++ [write]).flatMap (·.index)).filterMap IndexName.axis? :=
      List.mem_filterMap.mpr ⟨.result k, List.mem_flatMap.mpr ⟨write, by simp,
        hwrite k (List.mem_range.mp hk')⟩, rfl⟩
    simpa only [Bool.not_eq_true', Bool.not_eq_false, List.elem_iff] using hmem
  simp only [loopOrder, h.dst?_eq, hn, hkind', if_false, haccesses, Option.bind_eq_bind,
    Option.bind_some, Option.pure_def]
  rw [List.filterMap_append, List.eraseDups_append, hall, List.append_nil]

end Program.Places

namespace C

/-! ## Accesses at the names of indices -/

variable {N : NodeClass} {p : Program} {a : Assignment} {c : Clause} {layout : Layout} {ν : Naming}

/-- What code accesses at the names of indices are the accesses that are listed, with these names. -/
theorem accesses_named (h : p.Places a c) (hfits : c.Fits N p.find)
    (hlen : ν.axes.length = c.target.shape.length) {reads : List (Access Index)} {next : Nat}
    {sub : List Index} (hsub : c.target.subscript .fixed (ν.axes.map .loop) = some sub)
    (hreads : c.tree.readsAt .fixed (fun t => .loop (ν.sum t)) (ν.axes.map .loop) 0 = some (reads, next)) :
    ∃ write reads', p.accesses a = some (⟨a.dst, c.name, write, true⟩ :: reads') ∧
      sub = write.map ν.index ∧ reads = reads'.map (.map ν.index) ∧
      (∀ acc ∈ (⟨a.dst, c.name, write, true⟩ :: reads' : List (Access IndexName)),
        ∀ i ∈ acc.index, ∀ k ∈ i.axis?, k < ν.axes.length) ∧
      ∀ k < c.target.shape.length, .result k ∈ write := by
  obtain ⟨write, reads', next', haccesses, hwrite, hreads', hall⟩ :=
    h.accesses_spec hfits (P := fun i => ∀ k ∈ i.axis?, k < c.target.shape.length)
      (fun _ _ hk => by cases hk) (fun _ _ hk => by cases hk) fun i hi k hk => by
        obtain ⟨j, hj, rfl⟩ := List.mem_map.mp hi
        cases hk
        exact List.mem_range.mp hj
  refine ⟨write, reads', haccesses, ?_, ?_, hlen ▸ hall, fun k hk => ?_⟩
  · have hmap := Node.subscript_map ν.index hwrite
    rw [← hlen, ν.map_index_results] at hmap
    exact Option.some.inj (hsub.symm.trans hmap)
  · have hmap := Tree.readsAt_map ν.index hreads'
    rw [← hlen, ν.map_index_results] at hmap
    exact (Prod.mk.inj (Option.some.inj (hreads.symm.trans hmap))).1
  · rw [(perm_forward (backward_eq_some_iff.mp hwrite)).symm.mem_iff, List.mem_append]
    exact .inr (List.mem_map_of_mem (List.mem_range.mpr hk))

/-! ## The code of an assignment -/

/-- What the code of an assignment is like: the loops of the interpreter stand around the element that it
writes, and the indices of the loops are those of its accesses. -/
structure Nested (p : Program) (layout : Layout) (a : Assignment) (dst : Node) (ν : Naming)
    (loops : Loops) (e : Element) (block : List Stmt) : Prop where
  /-- There is a name for each axis of the result. -/
  length : ν.axes.length = dst.shape.length
  /-- The index of the shared loop is the name of the axis that is bound to it, and of no other. -/
  shared : ∀ (k : Nat) name, ν.axes[k]? = some name → (name = Emit.sharedIndex ↔ a.fuseAxis = some k)
  /-- There is a loop for each axis that the interpreter runs over, in its order. -/
  order : ∃ order, p.loopOrder a = some order ∧ order.mapM (ν.axisLoop dst.shape) = some loops
  /-- The elements are those of the accesses at the indices of the loops. -/
  accesses : ∃ write reads es, p.accesses a = some (write :: reads) ∧
    Locates p layout (write.map ν.index) e ∧ (Stmt.elementsAll block).Perm es ∧
    List.Forall₂ (Locates p layout) (reads.map (.map ν.index)) es

/-- The code of an assignment inside of some loops: its stores stand in the loops of the interpreter,
and no other loops are opened. -/
inductive InLoopOrder (p : Program) (layout : Layout) (around : Loops) (a : Assignment) :
    List Stmt → Prop
  /-- Nothing is written for a tensor that is assigned to itself. -/
  | self {dst root : Node} : p.dst? a = some dst → p.node? a.expr = some root →
    root.kind = .identifier → root.name = dst.name → root.fixed = dst.fixed → root.perm = dst.perm →
    InLoopOrder p layout around a []
  /-- The element is stored in the innermost loop. -/
  | store {dst root : Node} {ν : Naming} {loops : Loops} {e : Element} {value : Expr}
    {block : List Stmt} : p.dst? a = some dst → p.node? a.expr = some root →
    ¬ (root.kind = .identifier ∧ root.name = dst.name) → root.kind ≠ .contraction →
    Nested p layout a dst ν loops e block →
    Stmt.storesAll around block = [(around ++ loops, .store e value)] →
    Stmt.loopsAll block = loops → InLoopOrder p layout around a block
  /-- The element is cleared in the innermost loop of the result, and products are added to it in loops
  over the pairs of contracted axes. -/
  | sum {dst root : Node} {ν : Naming} {loops : Loops} {e : Element} {x y : Expr} {block : List Stmt}
    {id : NodeId} {operands : List Tree} {es : List Int} : p.dst? a = some dst →
    p.tree a.expr = .node id root operands → root.kind = .contraction →
    root.contractedExtents operands = some es → es.length = root.lhsAxes.length →
    Nested p layout a dst ν loops e block →
    Stmt.storesAll around block = [(around ++ loops, .clear e),
      (around ++ loops ++ ν.sumLoops es, .accumulate e x y)] →
    Stmt.loopsAll block = loops ++ ν.sumLoops es → InLoopOrder p layout around a block

/-- The names suit an assignment that is written next. -/
structure Naming.Suits (ν : Naming) (a : Assignment) (dst : Node) (w : Writer) : Prop where
  length : ν.axes.length = dst.shape.length
  nodup : ν.axes.Nodup
  shared : ∀ (k : Nat) name, ν.axes[k]? = some name → (name = Emit.sharedIndex ↔ a.fuseAxis = some k)
  sums : ∀ t, ν.sum t ∉ ν.axes
  flat : w.flat = none
  isOpen : ∀ (k : Nat) name, ν.axes[k]? = some name → (w.isOpen name = true ↔ a.fuseAxis = some k)
  extents : ∀ (k : Nat) name d, ν.axes[k]? = some name → dst.shape[k]? = some d →
    a.fuseAxis ≠ some k → w.extentOf name = d

/-- The steps that have been taken for an assignment, with the loops over the axes of its result. -/
structure Written (p : Program) (layout : Layout) (a : Assignment) (dst : Node) (ν : Naming)
    (w w' : Writer) (steps : List Step) (loops : Loops) (e : Element) : Prop where
  draft : w'.draft = w.draft.addAll steps
  nextIndex : w'.nextIndex = w.nextIndex
  nested : Nested p layout a dst ν loops e (nest steps)
  fresh : ∃ names, names ⊆ ν.axes ∧ loops = w.newLoops names

variable {w w' : Writer}

theorem filterMap_getElem?_range {τ : Type _} (l : List τ) :
    (List.range l.length).filterMap (l[·]?) = l := by
  induction l with
  | nil => rfl
  | cons x l ih =>
    rw [List.length_cons, List.range_succ_eq_map, List.filterMap_cons, List.filterMap_map]
    exact congrArg (x :: ·) ih

theorem axes_subset (ν : Naming) (ks : List Nat) : ks.filterMap (ν.axes[·]?) ⊆ ν.axes := by
  intro name hname
  obtain ⟨k, -, hk⟩ := List.mem_filterMap.mp hname
  exact List.mem_of_getElem? hk

/-- An assignment without a contraction: the loops are opened by its reads and then by its write. -/
theorem store_written (h : p.Places a c) (hfits : c.Fits N p.find) (hkind : c.tree.kind ≠ .contraction)
    (hν : ν.Suits a c.target w) {u : Unit}
    (hrun : Emit.body p layout c.target c.tree (ν.axes.map .loop) w = .ok (u, w')) :
    ∃ steps loops e v, Written p layout a c.target ν w w' steps loops e ∧ w'.nextSum = w.nextSum ∧
      (∀ around, Stmt.storesAll around (nest steps) = [(around ++ loops, .store e v)]) ∧
      Stmt.loopsAll (nest steps) = loops := by
  obtain ⟨id, n, ts, htree⟩ := hfits.typed.exists_node
  obtain ⟨s, -, hviews, -⟩ := hfits.declared
  have hk : n.kind ≠ .contraction := by rwa [htree, Tree.kind_node] at hkind
  rw [htree, Emit.body, if_neg hk, ← htree] at hrun
  obtain ⟨v, w₁, h₁, hrun⟩ := Emit.bind_eq_ok hrun
  obtain ⟨e, w₂, h₂, hrun⟩ := Emit.bind_eq_ok hrun
  obtain rfl := Emit.modify_eq_ok hrun
  have hcovered : Covered p layout (fun t => .loop (ν.sum t)) c.tree := tree_covered hfits.typed
  obtain ⟨reads, hlists, hcovers⟩ := hcovered hν.flat h₁
  obtain ⟨els, es, hopens, hperm, hes⟩ := hcovers.opens
  obtain ⟨sub, hsub, hopens', hlocates⟩ := access_opens (hopens.flat.trans hν.flat) h₂
  obtain ⟨next, hreads⟩ := hlists 0
  obtain ⟨write, reads', haccesses, rfl, rfl, hbounds, haxes⟩ := accesses_named h hfits hν.length hsub hreads
  -- the names for which loops have been opened are those of the axes that the accesses use
  let accs : List (Access IndexName) := reads' ++ [⟨a.dst, c.name, write, true⟩]
  have hmem : ∀ acc ∈ accs, acc = ⟨a.dst, c.name, write, true⟩ ∨ acc ∈ reads' := fun acc hacc => by
    simpa [accs, or_comm] using hacc
  have hnames : (reads'.map (Access.map ν.index)).flatMap (fun acc => loopNames acc.index) ++
      loopNames (write.map ν.index) =
      ((accs.flatMap (·.index)).filterMap IndexName.axis?).filterMap (ν.axes[·]?) := by
    rw [← Naming.loopNames_accesses hν.sums accs (fun acc hacc => ?_) fun acc hacc => ?_]
    · simp [accs, Access.map]
    · obtain ⟨acc', hacc', rfl⟩ := List.mem_map.mp hacc
      rcases hmem acc' hacc' with rfl | hread
      · exact confined_subscript hviews hsub
      · exact hcovers.confined _ (List.mem_map_of_mem hread)
    · exact hbounds acc (List.mem_cons.mpr (hmem acc hacc))
  have hboth := hopens.trans hopens'
  rw [hnames] at hboth
  obtain ⟨steps, hdraft, hdecl, hentered, hels⟩ := hboth.steps
  have horder := h.loopOrder_accesses hkind haccesses haxes
  have hloops := Naming.newLoops_axes (w := w) hν.nodup hν.length hν.isOpen hν.extents
    ((accs.flatMap (·.index)).filterMap IndexName.axis?) fun k hk => by
      obtain ⟨i, hi, hik⟩ := List.mem_filterMap.mp hk
      obtain ⟨acc, hacc, hi⟩ := List.mem_flatMap.mp hi
      exact hν.length ▸ hbounds acc (List.mem_cons.mpr (hmem acc hacc)) i hi k hik
  obtain ⟨hstores, hopened, helements⟩ : _ ∧ _ ∧ _ := ⟨fun around => (nest_store hdecl around e v).1,
    (nest_store hdecl [] e v).2⟩
  rw [hentered] at hstores hopened
  refine ⟨steps ++ [.put (.store e v)], _, e, v, ⟨?_, ?_, ⟨hν.length, hν.shared, ⟨_, horder, hloops⟩,
    _, _, es, haccesses, hlocates a.dst true, ?_, hes⟩, _, axes_subset ν _, rfl⟩, ?_, hstores, hopened⟩
  · rw [Writer.draft_write, hdraft, Draft.addAll_append]
    rfl
  · rw [Writer.write_rest]
    exact hboth.nextIndex
  · rw [helements, hels, List.append_nil]
    exact hperm
  · rw [Writer.write_rest]
    exact hboth.nextSum

theorem openSums_next {x : Node} {axes : List Int} {is : List Index}
    (h : Emit.openSums x axes w = .ok (is, w')) :
    w'.nextIndex = w.nextIndex ∧ w'.nextSum = w.nextSum + axes.length := by
  induction axes generalizing w is with
  | nil =>
    cases h
    exact ⟨rfl, rfl⟩
  | cons ax axes ih =>
    rw [Emit.openSums] at h
    obtain ⟨v, w₁, h₁, h⟩ := Emit.bind_eq_ok h
    obtain ⟨rfl, rfl⟩ := Emit.get_eq_ok h₁
    obtain ⟨_, w₂, h₂, h⟩ := Emit.bind_eq_ok h
    obtain rfl := Emit.modify_eq_ok h₂
    obtain ⟨e, w₃, h₃, h⟩ := Emit.bind_eq_ok h
    obtain ⟨he, rfl⟩ := Emit.demand_eq_ok h₃
    obtain ⟨_, w₄, h₄, h⟩ := Emit.bind_eq_ok h
    obtain rfl := Emit.modify_eq_ok h₄
    obtain ⟨js, w₅, h₅, h⟩ := Emit.bind_eq_ok h
    obtain ⟨rfl, rfl⟩ := Emit.pure_eq_ok h
    obtain ⟨hindex, hsum⟩ := ih h₅
    refine ⟨hindex, hsum.trans ?_⟩
    rw [List.length_cons, Nat.add_comm axes.length, ← Nat.add_assoc]
    rfl

/-- The loops over the contracted axes are opened in order, with the next names. -/
theorem sums_open (hsum : ∀ t, ν.sum t = sumName (w.nextSum + t)) {x : Node} {axes es : List Int}
    (hes : axes.mapM (at? x.shape) = some es) {is : List Index}
    (h : Emit.openSums x axes w = .ok (is, w')) :
    is = ((List.range es.length).map ν.sum).map .loop ∧
      w'.draft = w.draft.addAll (enters (ν.sumLoops es)) ∧ w'.flat = w.flat ∧
      w'.nextIndex = w.nextIndex ∧ w'.nextSum = w.nextSum + es.length ∧
      ∀ name, w'.isOpen name = true ↔ w.isOpen name = true ∨ name ∈ (List.range es.length).map ν.sum := by
  have hnames : (List.range es.length).map ν.sum = sumNames w.nextSum es.length := by
    rw [sumNames, List.range'_eq_map_range, List.map_map]
    exact List.map_congr_left fun t _ => hsum t
  obtain ⟨w₁, hrun, hdraft, hflat, -, hopen⟩ := openSums_spec hes w
  obtain ⟨hindex, hnext⟩ := openSums_next h
  cases hrun.symm.trans h
  rw [← length_mapM hes] at hnext
  rw [Naming.sumLoops, hnames]
  exact ⟨rfl, hdraft, hflat, hindex, hnext, hopen⟩

/-- What is written for a contraction. -/
theorem contraction_eq_ok {dst n : Node} {ts : List Tree} {result : List Index} {u : Unit}
    (h : Emit.contraction p layout dst n ts result w = .ok (u, w')) :
    ∃ e root is indices x y w₁ w₂ w₃ w₄, Emit.access p layout dst result (w.ensure result) = .ok (e, w₁) ∧
      ts[0]?.bind Tree.label? = some root ∧
      Emit.openSums root n.lhsAxes (w₁.write (.clear e)) = .ok (is, w₂) ∧
      n.operandIndices (ts.map Tree.rank?) result is = some indices ∧
      Emit.operandAt ts (ts.map (Emit.tree p layout)) indices 0 w₂ = .ok (x, w₃) ∧
      Emit.operandAt ts (ts.map (Emit.tree p layout)) indices 1 w₃ = .ok (y, w₄) ∧
      w' = w₄.write (.accumulate e x y) := by
  rw [Emit.contraction] at h
  obtain ⟨_, w₁, h₁, h⟩ := Emit.bind_eq_ok h
  obtain rfl := Emit.modify_eq_ok h₁
  obtain ⟨e, w₂, h₂, h⟩ := Emit.bind_eq_ok h
  obtain ⟨_, w₃, h₃, h⟩ := Emit.bind_eq_ok h
  obtain rfl := Emit.modify_eq_ok h₃
  obtain ⟨root, w₄, h₄, h⟩ := Emit.bind_eq_ok h
  obtain ⟨hroot, rfl⟩ := Emit.demand_eq_ok h₄
  obtain ⟨is, w₅, h₅, h⟩ := Emit.bind_eq_ok h
  obtain ⟨indices, w₆, h₆, h⟩ := Emit.bind_eq_ok h
  obtain ⟨hindices, rfl⟩ := Emit.demand_eq_ok h₆
  rw [Emit.trees_eq_map] at h
  obtain ⟨x, w₇, h₇, h⟩ := Emit.bind_eq_ok h
  obtain ⟨y, w₈, h₈, h⟩ := Emit.bind_eq_ok h
  obtain rfl := Emit.modify_eq_ok h
  exact ⟨e, root, is, indices, x, y, w₂, w₅, w₇, w₈, h₂, hroot, h₅, hindices, h₇, h₈, rfl⟩

/-- The loops of a result are opened before the destination is accessed, which needs no others. -/
theorem result_opens (hν : ν.Suits a c.target w) {stored : Shape} (hviews : c.target.Views stored)
    {e : Element} (h : Emit.access p layout c.target (ν.axes.map .loop) (w.ensure (ν.axes.map .loop)) =
      .ok (e, w')) : ∃ sub, c.target.subscript .fixed (ν.axes.map .loop) = some sub ∧
      w.Opens w' ν.axes [] ∧ ∀ id write, Locates p layout ⟨id, c.name, sub, write⟩ e := by
  have hresult := Writer.Opens.ensure hν.flat (ν.axes.map .loop)
  obtain ⟨sub, hsub, hwrite, hlocates⟩ := access_opens (hresult.flat.trans hν.flat) h
  refine ⟨sub, hsub, (?_ : w.Opens w' (ν.axes ++ loopNames sub) []).absorb
    (loopNames_subset (confined_subscript hviews hsub)), hlocates⟩
  have hboth := hresult.trans hwrite
  rwa [show (ν.axes.map Index.loop).filterMap Index.loopName? = ν.axes from loopNames_map_loop _] at hboth

/-- A contraction: the loops over the axes of its result are opened first, in order, and then those over
the pairs of contracted axes. Its operands do not need others. -/
theorem sum_written (h : p.Places a c) (hfits : c.Fits N p.find) {id : NodeId} {n : Node} {ts : List Tree}
    (htree : c.tree = .node id n ts) (hk : n.kind = .contraction) (hν : ν.Suits a c.target w)
    (hsum : ∀ t, ν.sum t = sumName (w.nextSum + t)) {u : Unit}
    (hrun : Emit.body p layout c.target c.tree (ν.axes.map .loop) w = .ok (u, w')) :
    ∃ steps loops e x y es, Written p layout a c.target ν w w' steps loops e ∧
      n.contractedExtents ts = some es ∧ es.length = n.lhsAxes.length ∧
      w'.nextSum = w.nextSum + es.length ∧
      (∀ around, Stmt.storesAll around (nest steps) = [(around ++ loops, .clear e),
        (around ++ loops ++ ν.sumLoops es, .accumulate e x y)]) ∧
      Stmt.loopsAll (nest steps) = loops ++ ν.sumLoops es := by
  have htyped : (Tree.node id n ts).Typed N.Admits p.find.shapes := htree ▸ hfits.typed
  obtain ⟨s, -, hviews, -⟩ := hfits.declared
  obtain ⟨es, hes, heslen⟩ := htyped.exists_extents hk
  obtain ⟨t₀, t₁, rfl⟩ := htyped.exists_pair hk
  rw [htree, Emit.body, if_pos hk] at hrun
  obtain ⟨e, root, is, indices, x, y, w₁, w₂, w₃, w₄, haccess, hroot, hopenSums, hindices, hx, hy, rfl⟩ :=
    contraction_eq_ok hrun
  obtain ⟨sub, hsub, houter, hlocates⟩ := result_opens hν hviews haccess
  obtain ⟨steps, hdraft, hdecl, hentered, hels⟩ := houter.steps
  -- the loops over the contracted axes
  have hextents : n.lhsAxes.mapM (at? root.shape) = some es := by
    rw [Node.contractedExtents] at hes
    simpa [show t₀.label? = some root from hroot] using hes
  have hnextSum : (w₁.write (.clear e)).nextSum = w.nextSum := by
    rw [Writer.write_rest]
    exact houter.nextSum
  obtain ⟨rfl, hdraft₂, hflat₂, hindex₂, hsum₂, hopen₂⟩ := sums_open (hnextSum.symm ▸ hsum) hextents hopenSums
  have hopen : ∀ name ∈ ν.axes ++ (List.range es.length).map ν.sum, w₂.isOpen name = true := by
    intro name hname
    rw [hopen₂, Writer.isOpen_write, houter.opened]
    exact (List.mem_append.mp hname).imp_left .inr
  have hflat : w₂.flat = none := by
    rw [hflat₂, Writer.write_rest]
    exact houter.flat.trans hν.flat
  -- the operands
  obtain ⟨reads, els, es', hlists, hopens, hperm, hes'⟩ :=
    operands_open htyped hk hindices hflat hopen hx hy
  obtain ⟨steps', hdraft', hdecl', hentered', helements'⟩ := hopens.steps
  -- the accesses
  have hsums : (List.range es.length).map (fun t => Index.loop (ν.sum (0 + t))) =
      ((List.range es.length).map ν.sum).map .loop := by simp
  obtain ⟨next, hnext⟩ := hlists (0 + es.length)
  have hreads : c.tree.readsAt .fixed (fun t => .loop (ν.sum t)) (ν.axes.map .loop) 0 =
      some (reads, next) := by
    rw [htree, Tree.readsAt_operands (by rw [hk]; rfl), ← heslen, hsums, hindices]
    exact hnext
  obtain ⟨write, reads', haccesses, rfl, rfl, -⟩ := accesses_named h hfits hν.length hsub hreads
  have hloops := Naming.newLoops_axes (w := w) hν.nodup hν.length hν.isOpen hν.extents
    (List.range c.target.shape.length) fun k hk => List.mem_range.mp hk
  rw [← hν.length, filterMap_getElem?_range] at hloops
  obtain ⟨all, hall⟩ : ∃ all, all = steps ++ .put (.clear e) :: (enters (ν.sumLoops es) ++ steps' ++
    [.put (.accumulate e x y)]) := ⟨_, rfl⟩
  have hnest := fun around => nest_sum hdecl hdecl' hentered' around e x y hall
  rw [hentered, hels, helements'] at hnest
  refine ⟨all, _, e, x, y, es, ⟨?_, ?_, ⟨hν.length, hν.shared,
    ⟨_, h.loopOrder_contraction (by rw [htree]; exact hk), hν.length ▸ hloops⟩, _, _, es', haccesses,
    hlocates a.dst true, ?_, hes'⟩, ν.axes, fun _ hname => hname, rfl⟩, hes, heslen, ?_,
    fun around => (hnest around).1, (hnest []).2.1⟩
  · rw [Writer.draft_write, hdraft', hdraft₂, Writer.draft_write, hdraft, hall, Draft.addAll_append]
    rw [← List.singleton_append, Draft.addAll_append, Draft.addAll_append, Draft.addAll_append]
    rfl
  · rw [Writer.write_rest]
    exact hopens.nextIndex.trans (hindex₂.trans (by rw [Writer.write_rest]; exact houter.nextIndex))
  · rw [(hnest []).2.2]
    exact hperm
  · rw [Writer.write_rest]
    exact hopens.nextSum.trans (hsum₂.trans (by rw [hnextSum]))

/-! ## Assignments -/

/-- An index that is named from one writer to the other. -/
def Fresh (w w' : Writer) (name : String) : Prop :=
  (∃ t, w.nextIndex ≤ t ∧ t < w'.nextIndex ∧ name = resultName t) ∨
    ∃ t, w.nextSum ≤ t ∧ t < w'.nextSum ∧ name = sumName t

/-- From one writer to the other, assignments have been written, each one inside of the loops that were
open before, and with indices of its own. -/
structure Adds (p : Program) (layout : Layout) (as : List Assignment) (w w' : Writer)
    (blocks : List (List Stmt)) : Prop where
  draft : w'.draft = w.draft.writeAll blocks.flatten
  outer : Outer w → Outer w'
  nextIndex : w.nextIndex ≤ w'.nextIndex
  nextSum : w.nextSum ≤ w'.nextSum
  inLoopOrder : List.Forall₂ (fun a block => ∀ around, InLoopOrder p layout around a block) as blocks
  nodup : ((Stmt.loopsAll blocks.flatten).map (·.1)).Nodup
  fresh : ∀ name ∈ (Stmt.loopsAll blocks.flatten).map (·.1), Fresh w w' name

namespace Adds

variable {as as' : List Assignment} {w₁ w₂ : Writer} {blocks blocks' : List (List Stmt)}

theorem nil (w : Writer) : Adds p layout [] w w [] :=
  ⟨rfl, id, Nat.le_refl _, Nat.le_refl _, .nil, .nil, fun _ h => (by cases h)⟩

theorem append (h : Adds p layout as w w₁ blocks) (h' : Adds p layout as' w₁ w₂ blocks') :
    Adds p layout (as ++ as') w w₂ (blocks ++ blocks') where
  draft := by rw [h'.draft, h.draft, List.flatten_append, Draft.writeAll_append]
  outer := h'.outer ∘ h.outer
  nextIndex := Nat.le_trans h.nextIndex h'.nextIndex
  nextSum := Nat.le_trans h.nextSum h'.nextSum
  inLoopOrder := List.rel_append h.inLoopOrder h'.inLoopOrder
  nodup := by
    rw [List.flatten_append, Stmt.loopsAll_append, List.map_append, List.nodup_append']
    refine ⟨h.nodup, h'.nodup, fun name hname hname' => ?_⟩
    -- the numbers that were used first are smaller
    rcases h.fresh name hname with ⟨t, -, hlt, rfl⟩ | ⟨t, -, hlt, rfl⟩
    · rcases h'.fresh _ hname' with ⟨t', hle, -, heq⟩ | ⟨t', -, -, heq⟩
      · have := resultName_injective heq
        omega
      · exact sumName_ne_resultName t' t heq.symm
    · rcases h'.fresh _ hname' with ⟨t', -, -, heq⟩ | ⟨t', hle, -, heq⟩
      · exact sumName_ne_resultName t t' heq
      · have := sumName_injective heq
        omega
  fresh name hname := by
    have hindex := h.nextIndex
    have hsum := h.nextSum
    have hindex' := h'.nextIndex
    have hsum' := h'.nextSum
    rw [List.flatten_append, Stmt.loopsAll_append, List.map_append, List.mem_append] at hname
    rcases hname with hname | hname
    · rcases h.fresh name hname with ⟨t, hle, hlt, heq⟩ | ⟨t, hle, hlt, heq⟩
      · exact .inl ⟨t, hle, by omega, heq⟩
      · exact .inr ⟨t, hle, by omega, heq⟩
    · rcases h'.fresh name hname with ⟨t, hle, hlt, heq⟩ | ⟨t, hle, hlt, heq⟩
      · exact .inl ⟨t, by omega, hlt, heq⟩
      · exact .inr ⟨t, by omega, hlt, heq⟩

end Adds

theorem resultIndices_next {axis : Option Nat} {i : Nat} {shape : Shape} {is : List Index}
    (h : Emit.resultIndices axis i shape w = .ok (is, w')) : w.nextIndex ≤ w'.nextIndex ∧
      w'.nextSum = w.nextSum ∧ ∀ name ∈ resultNames axis w.nextIndex i shape,
        name = Emit.sharedIndex ∨ ∃ t, w.nextIndex ≤ t ∧ t < w'.nextIndex ∧ name = resultName t := by
  induction shape generalizing i w is with
  | nil =>
    cases h
    exact ⟨Nat.le_refl _, rfl, fun _ h => (by cases h)⟩
  | cons d ds ih =>
    rw [Emit.resultIndices] at h
    rw [resultNames_cons]
    by_cases haxis : axis = some i
    · rw [if_pos haxis] at h ⊢
      obtain ⟨js, w₁, h₁, h⟩ := Emit.bind_eq_ok h
      obtain ⟨rfl, rfl⟩ := Emit.pure_eq_ok h
      obtain ⟨hindex, hsum, hnames⟩ := ih h₁
      exact ⟨hindex, hsum, List.forall_mem_cons.mpr ⟨.inl rfl, hnames⟩⟩
    · rw [if_neg haxis] at h ⊢
      obtain ⟨v, w₁, h₁, h⟩ := Emit.bind_eq_ok h
      obtain ⟨rfl, rfl⟩ := Emit.get_eq_ok h₁
      obtain ⟨_, w₂, h₂, h⟩ := Emit.bind_eq_ok h
      obtain rfl := Emit.modify_eq_ok h₂
      obtain ⟨js, w₃, h₃, h⟩ := Emit.bind_eq_ok h
      obtain ⟨rfl, rfl⟩ := Emit.pure_eq_ok h
      obtain ⟨hindex, hsum, hnames⟩ := ih h₃
      have hlt : w.nextIndex + 1 ≤ w'.nextIndex := hindex
      refine ⟨Nat.le_of_succ_le hlt, hsum, List.forall_mem_cons.mpr
        ⟨.inr ⟨w.nextIndex, Nat.le_refl _, hlt, rfl⟩, fun name hname => ?_⟩⟩
      rcases hnames name hname with hshared | ⟨t, hle, hlt, heq⟩
      · exact .inl hshared
      · exact .inr ⟨t, Nat.le_of_succ_le hle, hlt, heq⟩

/-- The loops of an assignment are closed behind it. -/
theorem Written.adds {w₁ w₂ : Writer} {steps : List Step} {loops sums : Loops} {e : Element} {m : Nat}
    (h : Written p layout a c.target ν w₁ w₂ steps loops e) (hν : ν.Suits a c.target w₁)
    (hresult : Emit.resultIndices a.fuseAxis 0 c.target.shape w = .ok (ν.axes.map .loop, w₁))
    (haxes : ν.axes = resultNames a.fuseAxis w.nextIndex 0 c.target.shape) (hdraft : w₁.draft = w.draft)
    (hsum : ∀ t, ν.sum t = sumName (w₁.nextSum + t)) (hsums : sums.map (·.1) = (List.range m).map ν.sum)
    (hnext : w₂.nextSum = w₁.nextSum + m) (hloops : Stmt.loopsAll (nest steps) = loops ++ sums)
    (horder : ∀ around, InLoopOrder p layout around a (nest steps)) :
    Adds p layout [a] w { w₂.closeTo w.frames.length with flat := none } [nest steps] := by
  have hclosed : ({ w₂.closeTo w.frames.length with flat := none } : Writer).draft =
      w.draft.writeAll (nest steps) := Writer.draft_closeTo (h.draft.trans (by rw [hdraft]))
  have hcounts : ∀ n, (w₂.closeTo n).nextIndex = w₂.nextIndex ∧ (w₂.closeTo n).nextSum = w₂.nextSum := by
    intro n
    rw [Writer.closeTo_rest]
    exact ⟨rfl, rfl⟩
  obtain ⟨hindex₁, hsum₁, hnames⟩ := resultIndices_next hresult
  have hnextIndex : w.nextIndex ≤ w₂.nextIndex := h.nextIndex.symm ▸ hindex₁
  have hnextSum : w₂.nextSum = w.nextSum + m := hsum₁ ▸ hnext
  have hall : (Stmt.loopsAll [nest steps].flatten).map (·.1) =
      loops.map (·.1) ++ (List.range m).map ν.sum := by
    rw [List.flatten_singleton, hloops, List.map_append, hsums]
  obtain ⟨names, hsub, hfresh⟩ := h.fresh
  have hloop : ∀ name ∈ loops.map (·.1), name ∈ ν.axes ∧ w₁.isOpen name = false := by
    intro name hname
    rw [hfresh, Writer.map_fst_newLoops, List.mem_eraseDups, List.mem_filter] at hname
    exact ⟨hsub hname.1, by simpa using hname.2⟩
  refine ⟨by rw [List.flatten_singleton]; exact hclosed, fun hw => ⟨rfl, fun name ho => hw.only name ?_⟩,
    (hcounts _).1.symm ▸ hnextIndex, (hcounts _).2.symm ▸ hnextSum ▸ Nat.le_add_right _ _,
    .cons horder .nil, ?_, fun name hname => ?_⟩
  · rwa [isOpen_writeAll hclosed] at ho
  · rw [hall, List.nodup_append']
    refine ⟨?_, List.nodup_range.map fun t t' heq => ?_, fun name hname hname' => ?_⟩
    · rw [hfresh, Writer.map_fst_newLoops]
      exact nodup_eraseDups _
    · rw [hsum, hsum] at heq
      have := sumName_injective heq
      omega
    · obtain ⟨t, -, rfl⟩ := List.mem_map.mp hname'
      exact hν.sums t (hloop _ hname).1
  · rw [hall, List.mem_append] at hname
    rcases hname with hname | hname
    · obtain ⟨hmem, hclosed⟩ := hloop name hname
      rcases hnames name (haxes ▸ hmem) with hshared | ⟨t, hle, hlt, heq⟩
      · -- the axis of the shared loop has an open loop
        obtain ⟨k, hk⟩ := List.mem_iff_getElem?.mp hmem
        rw [(hν.isOpen k name hk).mpr ((hν.shared k name hk).mp hshared)] at hclosed
        cases hclosed
      · exact .inl ⟨t, hle, by rw [(hcounts _).1, h.nextIndex]; exact hlt, heq⟩
    · obtain ⟨t, ht, rfl⟩ := List.mem_map.mp hname
      have := List.mem_range.mp ht
      refine .inr ⟨w.nextSum + t, Nat.le_add_right _ _, ?_, hsum₁ ▸ hsum t⟩
      show _ < (w₂.closeTo _).nextSum
      rw [(hcounts _).2]
      omega

/-- The names that the axes of the result of an assignment get suit it. -/
theorem suits_resultNames {w₁ : Writer} (hw : Outer w₁)
    (hshared : a.fuseAxis.isSome = true → w₁.isOpen Emit.sharedIndex = true) {next : Nat} {sum : Nat → String}
    (hsum : ∀ t, ∃ t', sum t = sumName t')
    (hextents : ∀ (k : Nat) name d, (resultNames a.fuseAxis next 0 c.target.shape)[k]? = some name →
      c.target.shape[k]? = some d → name = Emit.sharedIndex ∨ w₁.extentOf name = d) :
    Naming.Suits ⟨resultNames a.fuseAxis next 0 c.target.shape, sum⟩ a c.target w₁ := by
  have hnamed : ∀ (k : Nat) name, (resultNames a.fuseAxis next 0 c.target.shape)[k]? = some name →
      (name = Emit.sharedIndex ↔ a.fuseAxis = some k) := by
    intro k name hk
    rw [eq_sharedIndex_iff hk, Nat.zero_add]
  refine ⟨length_resultNames _ _ _ _, nodup_resultNames _ _ _ _, hnamed, fun t hmem => ?_, hw.flat,
    fun k name hk => ⟨fun ho => (hnamed k name hk).mp (hw.only name ho), fun hfuse => ?_⟩,
    fun k name d hk hd hne => ?_⟩
  · obtain ⟨t', heq⟩ := hsum t
    rcases mem_resultNames (show sum t ∈ resultNames _ _ _ _ from hmem) with ⟨hname, -⟩ | ⟨i, -, hname⟩
    · exact sumName_ne_sharedIndex t' (heq.symm.trans hname)
    · exact sumName_ne_resultName t' i (heq.symm.trans hname)
  · rw [(hnamed k name hk).mpr hfuse]
    exact hshared (by rw [hfuse]; rfl)
  · exact (hextents k name d hk hd).resolve_left fun hname => hne ((hnamed k name hk).mp hname)

/-- The code of an assignment that is not computed by one flat loop. -/
theorem assignment_adds {opts : EmitOptions} (hcoalesce : opts.coalesce = false) (h : p.Places a c)
    (hfits : c.Fits N p.find) (hw : Outer w)
    (hshared : a.fuseAxis.isSome = true → w.isOpen Emit.sharedIndex = true) {u : Unit}
    (hrun : Emit.assignment p opts a w = .ok (u, w')) :
    ∃ block, Adds p opts.layout [a] w w' [block] := by
  obtain ⟨id, n, ts, htree⟩ := hfits.typed.exists_node
  have hroot := h.node?_root htree
  obtain ⟨w₁, hrun₁, hdraft₁, hflat₁, -, -, hextents⟩ :=
    resultIndices_spec a.fuseAxis 0 c.target.shape w
  have hopen₁ : ∀ name, w₁.isOpen name = w.isOpen name := isOpen_writeAll (l := []) hdraft₁
  have hw₁ : Outer w₁ := ⟨hflat₁.trans hw.flat, fun name ho => hw.only name (hopen₁ name ▸ ho)⟩
  rw [assignment_start h opts htree hrun₁] at hrun
  by_cases hself : n.kind = .identifier ∧ n.name = c.name
  · rw [if_pos (by simp [hself])] at hrun
    by_cases hsame : n.fixed = c.target.fixed ∧ n.perm = c.target.perm
    · rw [if_pos hsame] at hrun
      obtain ⟨-, rfl⟩ := Emit.pure_eq_ok hrun
      obtain ⟨hindex, hsum, -⟩ := resultIndices_next hrun₁
      exact ⟨[], hdraft₁, fun _ => hw₁, hindex, Nat.le_of_eq hsum.symm,
        .cons (fun _ => .self h.dst?_eq hroot hself.1 hself.2 hsame.1 hsame.2) .nil, .nil,
        fun _ h => (by cases h)⟩
    · rw [if_neg hsame] at hrun
      obtain ⟨_, _, _, hrun⟩ := Emit.bind_eq_ok hrun
      cases hrun
  rw [if_neg (by simpa using hself)] at hrun
  obtain ⟨_, w₂, h₂, hrest⟩ := Emit.bind_eq_ok hrun
  unfold Emit.openFlat at h₂
  rw [if_neg (by simp [hcoalesce])] at h₂
  obtain ⟨-, rfl⟩ := Emit.pure_eq_ok h₂
  obtain ⟨_, w₃, h₃, hclose⟩ := Emit.bind_eq_ok hrest
  obtain rfl := Emit.modify_eq_ok hclose
  let ν : Naming := ⟨resultNames a.fuseAxis w.nextIndex 0 c.target.shape, fun t => sumName (w₂.nextSum + t)⟩
  have hν : ν.Suits a c.target w₂ := suits_resultNames hw₁
    (fun hsome => (hopen₁ _).trans (hshared hsome)) (fun t => ⟨_, rfl⟩) hextents
  by_cases hk : n.kind = .contraction
  · obtain ⟨steps, loops, e, x, y, es, hwritten, hes, heslen, hnext, hstores, hloops⟩ :=
      sum_written h hfits htree hk hν (fun t => rfl) h₃
    have hsums : (ν.sumLoops es).map (·.1) = (List.range es.length).map ν.sum :=
      List.map_fst_zip (by simp)
    exact ⟨nest steps, hwritten.adds hν hrun₁ rfl hdraft₁ (fun t => rfl) hsums hnext hloops
      fun around => .sum h.dst?_eq (h.tree_eq.trans htree) hk hes heslen hwritten.nested
        (hstores around) hloops⟩
  · have hkind : c.tree.kind ≠ .contraction := by rwa [htree, Tree.kind_node]
    obtain ⟨steps, loops, e, v, hwritten, hnext, hstores, hloops⟩ := store_written h hfits hkind hν h₃
    have hsums : ([] : Loops).map (·.1) = (List.range 0).map ν.sum := rfl
    exact ⟨nest steps, hwritten.adds hν hrun₁ rfl hdraft₁ (fun t => rfl) hsums hnext
      (by rw [List.append_nil, hloops]) fun around => .store h.dst?_eq hroot hself hk hwritten.nested
        (hstores around) hloops⟩

/-- Assignments are written one after the other. -/
theorem assignments_add {opts : EmitOptions} (hcoalesce : opts.coalesce = false) {as : List Assignment}
    (has : ∀ a ∈ as, ∃ c, p.Places a c ∧ c.Fits N p.find) (hw : Outer w)
    (hshared : ∀ a ∈ as, a.fuseAxis.isSome = true → w.isOpen Emit.sharedIndex = true) {i : Nat} {u : Unit}
    (hrun : Emit.assignments p opts i as w = .ok (u, w')) :
    ∃ blocks, Adds p opts.layout as w w' blocks := by
  induction as generalizing w i with
  | nil =>
    cases hrun
    exact ⟨[], .nil _⟩
  | cons a as ih =>
    obtain ⟨c, hplaces, hfits⟩ := has a (.head _)
    rw [Emit.assignments] at hrun
    cases hfirst : Emit.assignment p opts a w with
    | error e =>
      simp only [hfirst] at hrun
      cases hrun
    | ok r =>
      simp only [hfirst] at hrun
      obtain ⟨block, hblock⟩ := assignment_adds hcoalesce hplaces hfits hw (hshared a (.head _)) hfirst
      obtain ⟨blocks, hblocks⟩ := ih (fun b hb => has b (.tail _ hb)) (hblock.outer hw)
        (fun b hb hsome => by
          rw [isOpen_writeAll hblock.draft]
          exact hshared b (.tail _ hb) hsome) hrun
      exact ⟨block :: blocks, hblock.append hblocks⟩

/-! ## Programs -/

/-- The loops that all assignments share. -/
def sharedLoops : Option Int → Loops
  | none => []
  | some extent => [(Emit.sharedIndex, extent)]

theorem loopsAll_inShared (fusion : Option Int) (ss : List Stmt) :
    Stmt.loopsAll (inShared fusion ss) = sharedLoops fusion ++ Stmt.loopsAll ss := by
  cases fusion with
  | none => rfl
  | some extent => rw [inShared, Stmt.loopsAll, Stmt.loopsAll, List.append_nil]; rfl

/-- The loops around the stores of a program are those of the interpreter. The code of each assignment
follows on that of the one before, in the shared loop if there is one. The store of an assignment stands
there in a loop for each axis that the interpreter runs over, in its order, and a sum is added up in a
loop for each pair of contracted axes. No index is used by two loops. -/
def InterpreterOrder (p : Program) (layout : Layout) (body : List Stmt) : Prop :=
  ∃ blocks, body = inShared p.fusion blocks.flatten ∧ ((Stmt.loopsAll body).map (·.1)).Nodup ∧
    List.Forall₂ (InLoopOrder p layout (sharedLoops p.fusion)) p.assignments blocks

theorem program_order (h : p.Accepted) (hfused : p.Unfused ∨ ∃ q, Pass.fuse q = some (true, p))
    {opts : EmitOptions} (hcoalesce : opts.coalesce = false) {body : List Stmt}
    (hrun : Emit.program p opts {} = .ok (body, w)) : InterpreterOrder p opts.layout body := by
  have hopen : ∀ a ∈ p.assignments, a.fuseAxis.isSome = true →
      (Writer.start p.fusion).isOpen Emit.sharedIndex = true := by
    intro a ha hsome
    rcases hfused with hunfused | ⟨q, hfuse⟩
    · rw [hunfused.loops a ha] at hsome
      cases hsome
    · obtain ⟨extent, axes, rfl, -⟩ := Pass.fuse_eq_shared hfuse
      show (Writer.start (some extent)).isOpen Emit.sharedIndex = true
      rw [Writer.start, Writer.isOpen_openLoop, beq_self_eq_true, Bool.true_or]
  obtain ⟨w₁, hassignments, rfl⟩ : ∃ w₁, Emit.assignments p opts 0 p.assignments (Writer.start p.fusion) =
      .ok ((), w₁) ∧ body = (w₁.closeTo 0).done := by
    rw [program_eq] at hrun
    cases hassignments : Emit.assignments p opts 0 p.assignments (Writer.start p.fusion) with
    | error e =>
      rw [hassignments] at hrun
      cases hrun
    | ok r =>
      rw [hassignments] at hrun
      cases hrun
      exact ⟨r.2, rfl, rfl⟩
  obtain ⟨blocks, hblocks⟩ := assignments_add hcoalesce
    (fun a ha => ⟨p.clause a, h.places ha, h.fits_all _ (Program.Accepted.mem_clauses ha)⟩)
    (outer_start p.fusion) hopen hassignments
  refine ⟨blocks, done_closeTo hblocks.draft, ?_, hblocks.inLoopOrder.imp fun a block horder => horder _⟩
  rw [done_closeTo hblocks.draft, loopsAll_inShared, List.map_append, List.nodup_append']
  refine ⟨?_, hblocks.nodup, fun name hname hname' => ?_⟩
  · cases p.fusion <;> simp [sharedLoops]
  · have hshared : name = Emit.sharedIndex := by
      cases hfusion : p.fusion with
      | none => rw [hfusion] at hname; cases hname
      | some extent =>
        rw [hfusion] at hname
        exact List.mem_singleton.mp hname
    rcases hblocks.fresh name hname' with ⟨t, -, -, heq⟩ | ⟨t, -, -, heq⟩
    · exact resultName_ne_sharedIndex t (heq.symm.trans hshared)
    · exact sumName_ne_sharedIndex t (heq.symm.trans hshared)

/-! ## Texts -/

section

variable {constant : String → Float}

theorem Expr.elements_reading (e : Expr) : (e.reading constant).elements = e.elements := by
  induction e with
  | literal v =>
    rw [reading, literalExpr]
    split
    · rfl
    · split <;> rfl
  | element | temp => rfl
  | arith op x y ihx ihy => rw [reading, elements, ihx, ihy, elements]

mutual
theorem Stmt.elements_reading : (s : Stmt) → (s.reading constant).elements = s.elements
  | .loop _ _ body => Stmt.elementsAll_reading body
  | .declare _ value | .store _ value => Expr.elements_reading value
  | .clear _ => rfl
  | .accumulate _ x y => congrArg₂ (· ++ ·) (Expr.elements_reading x) (Expr.elements_reading y)

theorem Stmt.elementsAll_reading :
    (ss : List Stmt) → Stmt.elementsAll (Stmt.readingAll constant ss) = Stmt.elementsAll ss
  | [] => rfl
  | s :: ss => congrArg₂ (· ++ ·) (Stmt.elements_reading s) (Stmt.elementsAll_reading ss)
end

mutual
theorem Stmt.loops_reading : (s : Stmt) → (s.reading constant).loops = s.loops
  | .loop index extent body => congrArg ((index, extent) :: ·) (Stmt.loopsAll_reading body)
  | .declare _ _ | .store _ _ | .clear _ | .accumulate _ _ _ => rfl

theorem Stmt.loopsAll_reading :
    (ss : List Stmt) → Stmt.loopsAll (Stmt.readingAll constant ss) = Stmt.loopsAll ss
  | [] => rfl
  | s :: ss => congrArg₂ (· ++ ·) (Stmt.loops_reading s) (Stmt.loopsAll_reading ss)
end

mutual
theorem Stmt.stores_reading {around : Loops} : (s : Stmt) → (s.reading constant).stores around =
    (s.stores around).map fun x => (x.1, x.2.reading constant)
  | .loop _ _ body => Stmt.storesAll_reading body
  | .declare _ _ | .store _ _ | .clear _ | .accumulate _ _ _ => rfl

theorem Stmt.storesAll_reading {around : Loops} :
    (ss : List Stmt) → Stmt.storesAll around (Stmt.readingAll constant ss) =
      (Stmt.storesAll around ss).map fun x => (x.1, x.2.reading constant)
  | [] => rfl
  | s :: ss => by
    rw [Stmt.readingAll, Stmt.storesAll, Stmt.stores_reading s, Stmt.storesAll_reading ss, Stmt.storesAll,
      List.map_append]
end

theorem readingAll_eq_map (ss : List Stmt) : Stmt.readingAll constant ss = ss.map (Stmt.reading constant) := by
  induction ss with
  | nil => rfl
  | cons s ss ih => rw [Stmt.readingAll, ih, List.map_cons]

theorem Nested.reading {dst : Node} {loops : Loops} {e : Element} {block : List Stmt}
    (h : Nested p layout a dst ν loops e block) :
    Nested p layout a dst ν loops e (Stmt.readingAll constant block) :=
  ⟨h.length, h.shared, h.order, (Stmt.elementsAll_reading block).symm ▸ h.accesses⟩

theorem InLoopOrder.reading {around : Loops} {block : List Stmt} (h : InLoopOrder p layout around a block) :
    InLoopOrder p layout around a (Stmt.readingAll constant block) := by
  cases h with
  | self hdst hroot hkind hname hfixed hperm => exact .self hdst hroot hkind hname hfixed hperm
  | @store dst root ν loops e value _ hdst hroot hother hkind hnested hstores hloops =>
    have hstores' : Stmt.storesAll around (Stmt.readingAll constant block) =
        [(around ++ loops, .store e (value.reading constant))] := by
      rw [Stmt.storesAll_reading, hstores]
      rfl
    exact .store hdst hroot hother hkind hnested.reading hstores' ((Stmt.loopsAll_reading _).trans hloops)
  | @sum dst root ν loops e x y _ id operands es hdst htree hkind hes hlen hnested hstores hloops =>
    have hstores' : Stmt.storesAll around (Stmt.readingAll constant block) = [(around ++ loops, .clear e),
        (around ++ loops ++ ν.sumLoops es, .accumulate e (x.reading constant) (y.reading constant))] := by
      rw [Stmt.storesAll_reading, hstores]
      rfl
    exact .sum hdst htree hkind hes hlen hnested.reading hstores' ((Stmt.loopsAll_reading _).trans hloops)

/-- What is read of code has the same loops around its stores. -/
theorem InterpreterOrder.reading {body : List Stmt} (h : InterpreterOrder p layout body) :
    InterpreterOrder p layout (Stmt.readingAll constant body) := by
  obtain ⟨blocks, rfl, hnodup, hblocks⟩ := h
  refine ⟨blocks.map (Stmt.readingAll constant), ?_, by rwa [Stmt.loopsAll_reading], ?_⟩
  · have hflatten : (blocks.map (Stmt.readingAll constant)).flatten =
        Stmt.readingAll constant blocks.flatten := by
      rw [readingAll_eq_map, List.map_flatten]
      exact congrArg List.flatten (List.map_congr_left fun block _ => readingAll_eq_map block)
    rw [hflatten]
    cases p.fusion with
    | none => rfl
    | some extent => rfl
  · rw [List.forall₂_map_right_iff]
    exact hblocks.imp fun a block horder => horder.reading

end

/-- The loops of an accepted program, fused or not, are those of the interpreter in its code, and in the
text of the code if the names of the program can stand there. -/
theorem emit_loop_order (h : p.Accepted) (hfused : p.Unfused ∨ ∃ q, Pass.fuse q = some (true, p))
    {opts : EmitOptions} (hcoalesce : opts.coalesce = false) {code : Code} (hemit : emit p opts = .ok code) :
    ∃ f, Emits p opts code f ∧ InterpreterOrder p opts.layout f.body ∧
      (Spelled p → IsFunctionName code.funcName → ∀ constant, ∃ s,
        Source.read? constant f.element code.source = some s ∧ InterpreterOrder p opts.layout s.body) := by
  obtain ⟨f, hf⟩ := emit_eq_ok hemit
  obtain ⟨w, hbody⟩ := hf.body
  have horder := program_order h hfused hcoalesce hbody
  refine ⟨f, hf, horder, fun hwords hname constant => ⟨f.reading constant, ?_, horder.reading⟩⟩
  exact hf.read?_source
    (fun a ha => ⟨p.clause a, h.places ha, h.fits_all _ (Program.Accepted.mem_clauses ha)⟩)
    (fun _ _ hs => hs) hwords (hf.funcName ▸ hname) constant

/-- The rows of the sum in place and of the product of rows are computed in one shared loop. -/
theorem emit_loop_order_summedGram : (Pass.shared Pass.summedGram 2 [0, 0]).Accepted ∧
    Pass.fuse Pass.summedGram = some (true, Pass.shared Pass.summedGram 2 [0, 0]) ∧
    ({} : EmitOptions).coalesce = false ∧ ∃ code, emit (Pass.shared Pass.summedGram 2 [0, 0]) {} = .ok code ∧
      Spelled (Pass.shared Pass.summedGram 2 [0, 0]) ∧ IsFunctionName code.funcName ∧
      ∃ s blocks, Source.read? (fun _ => 0) "double" code.source = some s ∧
        s.body = [.loop Emit.sharedIndex 2 blocks.flatten] ∧ ((Stmt.loopsAll s.body).map (·.1)).Nodup ∧
        List.Forall₂ (InLoopOrder (Pass.shared Pass.summedGram 2 [0, 0]) .rowMajor [(Emit.sharedIndex, 2)])
          [{ dst := 3, expr := 2, fuseAxis := some 0 }, { dst := 7, expr := 6, fuseAxis := some 0 }] blocks := by
  have hfuse : Pass.fuse Pass.summedGram = some (true, Pass.shared Pass.summedGram 2 [0, 0]) := rfl
  have haccepted := Pass.accepted_fuse Pass.summedGram_accepted hfuse
  obtain ⟨code, hemit⟩ : ∃ code, emit (Pass.shared Pass.summedGram 2 [0, 0]) {} = .ok code := ⟨_, rfl⟩
  obtain ⟨f, hf, -, htext⟩ := emit_loop_order haccepted (.inr ⟨_, hfuse⟩) rfl hemit
  have hwords : Spelled (Pass.shared Pass.summedGram 2 [0, 0]) := by decide
  have hname : IsFunctionName code.funcName := by
    rw [hf.funcName]
    exact hf.isFunctionName (by decide) (.inl rfl)
  obtain ⟨s, hs, blocks, hbody, hnodup, hblocks⟩ := htext hwords hname fun _ => 0
  have helement : f.element = "double" := (Option.some.inj hf.element).symm
  exact ⟨haccepted, hfuse, rfl, code, hemit, hwords, hname, s, blocks, helement ▸ hs, hbody, hnodup, hblocks⟩

end C

end LoopNest
