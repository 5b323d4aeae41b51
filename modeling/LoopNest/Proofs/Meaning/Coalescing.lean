import LoopNest.Proofs.Code.Flat
import LoopNest.Proofs.Meaning
import LoopNest.Proofs.Slices
import LoopNest.Proofs.Stores

/-!
# Coalescing the loops of an assignment

When an assignment of an accepted program is found to be coalescible, all that it accesses for an
element is at the position of that element, or is a scalar (`Program.Coalesces.positions`). One loop
over the positions then computes what the loops over the axes compute, element for element and in the
same order (`Program.Coalesces.loops`). The positions of the indices are the numbers below the element
count when no extent is negative and the elements can be counted in a word.
-/

namespace LoopNest

/-! ## Flat loops -/

section

variable {α : Type}

/-- The element of a tensor at a position. -/
def Memory.at? (mem : Memory α) (name : String) (o : Int) : Option α := do
  let t ← mem.get? name
  if o < 0 then none else t.data[o.toNat]?

/-- Stores the element of a tensor at a position. -/
def Memory.setAt? (mem : Memory α) (name : String) (o : Int) (v : α) : Option (Memory α) :=
  mem.change? name fun t => if 0 ≤ o ∧ o < t.data.size then some (t.setAt v o.toNat) else none

/-- The position of an identifier in a flat loop: the counter of the loop, unless it is a scalar. -/
def Node.flatPosition (n : Node) (o : Int) : Int := if n.fixed ++ n.shape = [] then 0 else o

variable [Scalar α]

namespace Tree

mutual
/-- The value of an expression in a flat loop. There are no indices: every tensor is read at the
counter of the loop. -/
def evalFlat (mem : Memory α) (o : Int) : Tree → Option α
  | .missing => none
  | .node _ n ts =>
    match n.kind with
    | .identifier => mem.at? n.name (n.flatPosition o)
    | .constant => some (Scalar.literal n.value)
    | kind => do
      let op ← kind.arith?
      let values := evalFlatAll mem o ts
      return op.eval (← (values[0]?).join) (← (values[1]?).join)

/-- The values of several expressions in a flat loop. -/
def evalFlatAll (mem : Memory α) (o : Int) : List Tree → List (Option α)
  | [] => []
  | t :: ts => t.evalFlat mem o :: evalFlatAll mem o ts
end

theorem evalFlat_arith {mem : Memory α} {o : Int} {id : NodeId} {n : Node} {t₀ t₁ : Tree} {op : ArithOp}
    (hop : n.kind.arith? = some op) : (Tree.node id n [t₀, t₁]).evalFlat mem o =
      (t₀.evalFlat mem o).bind fun x => (t₁.evalFlat mem o).bind fun y => some (op.eval x y) := by
  rw [evalFlat]
  cases hk : n.kind <;> rw [hk] at hop <;> cases hop <;> rfl

end Tree

/-- Computes and stores one element of an assignment in a flat loop. -/
def Program.runFlatElement (dst : Node) (expr : Tree) (o : Int) (mem : Memory α) :
    Option (Memory α) := do
  mem.setAt? dst.name (dst.flatPosition o) (← expr.evalFlat mem o)

/-- Computes the elements of an assignment in one loop over the positions of its destination. -/
def Program.runFlat (dst : Node) (expr : Tree) (mem : Memory α) : Option (Memory α) :=
  loop dst.shape.size.toNat 0 (runFlatElement dst expr) mem

end

/-! ## Expressions that combine element by element -/

open C (Whole Coalesced)

variable {τ : Type} {C : Node → Prop} {S : Shapes} {t : Tree}

/-- All nodes combine element by element, and all identifiers stand for whole tensors. -/
def Tree.Pointwise (t : Tree) : Prop :=
  ∀ n ∈ t.labels, n.kind.permutes = false ∧ (n.kind = .identifier → Whole n)

namespace Tree.Pointwise

variable (h : t.Pointwise) (ht : t.Typed C S)
include h

theorem unstacked : ∀ n ∈ t.labels, n.kind ≠ .stack := by
  intro n hn hk
  have := (h n hn).1
  rw [hk] at this
  cases this

include ht

/-- Induction over an expression that combines element by element: each operand is indexed like the
node or is a scalar. -/
theorem inductionOn {motive : Tree → Prop}
    (identifier : ∀ {id n}, n.kind = .identifier → Whole n → S n.name = some n.shape →
      motive (.node id n []))
    (constant : ∀ {id n}, n.kind = .constant → motive (.node id n []))
    (arith : ∀ {id n op t₀ t₁} (s₀ s₁ : Bool), n.kind.arith? = some op →
      t₀.shape = (bif s₀ then [] else n.shape) → t₁.shape = (bif s₁ then [] else n.shape) →
      (∀ {τ : Type} (idx con : List τ), n.operandIndices ([t₀, t₁].map Tree.rank?) idx con =
        some [bif s₀ then [] else idx, bif s₁ then [] else idx]) →
      motive t₀ → motive t₁ → motive (.node id n [t₀, t₁])) : motive t := by
  induction ht with
  | @node id n ts hC hfits hts ih =>
    have htyped : (Tree.node id n ts).Typed C S := .node hC hfits hts
    obtain ⟨hpermutes, hwhole⟩ := h n (by simp)
    rcases htyped.pointwise hpermutes with
      ⟨hk, rfl⟩ | ⟨hk, rfl⟩ | ⟨op, t₀, t₁, s₀, s₁, hop, rfl, h₀, h₁, hops⟩
    · obtain ⟨stored, hS, hviews⟩ := htyped.identifier hk
      obtain rfl := (hwhole hk).stored_eq hviews
      exact identifier hk (hwhole hk) hS
    · exact constant hk
    · have hoperand : ∀ t ∈ [t₀, t₁], motive t := fun t ht => ih t ht fun m hm => h m (by
        rw [labels_node, List.mem_cons, List.mem_flatMap]
        exact .inr ⟨t, ht, hm⟩)
      exact arith s₀ s₁ hop h₀ h₁ hops (hoperand t₀ (by simp)) (hoperand t₁ (by simp))

variable {fixed : Int → τ}

/-- Every read is subscripted like the result, or is that of a scalar. -/
theorem readsAt_index {sum : Nat → τ} {idx : List τ} {next next' : Nat} {reads : List (Access τ)}
    (hreads : t.readsAt fixed sum idx next = some (reads, next')) :
    ∀ acc ∈ reads, acc.index = idx ∨ acc.index = [] := by
  refine h.inductionOn ht
    (motive := fun t => ∀ idx next next' reads, t.readsAt fixed sum idx next = some (reads, next') →
      ∀ acc ∈ reads, acc.index = idx ∨ acc.index = [])
    ?_ ?_ ?_ idx next next' reads hreads
  · intro id n hk hwhole _ idx next next' reads hreads
    rw [readsAt_ident hk, hwhole.subscript_eq] at hreads
    cases hreads
    simp
  · intro id n hk idx next next' reads hreads
    rw [readsAt_constant hk] at hreads
    cases hreads
    simp
  · intro id n op t₀ t₁ s₀ s₁ hop _ _ hops h₀ h₁ idx next next' reads hreads
    rw [readsAt_operands (NodeKind.isLeaf_of_arith hop), hops, Option.bind_some] at hreads
    obtain ⟨first, m₁, _, hfirst, hrest, rfl⟩ := readsOperands_cons_eq_some hreads
    obtain ⟨second, m₂, _, hsecond, hnil, rfl⟩ := readsOperands_cons_eq_some hrest
    cases hnil
    have hscalar : ∀ (s : Bool) {acc : Access τ},
        acc.index = (bif s then [] else idx) ∨ acc.index = [] → acc.index = idx ∨ acc.index = [] := by
      intro s acc hacc
      cases s with
      | true => exact .inr (or_self_iff.mp hacc)
      | false => exact hacc
    simp only [List.append_nil, List.forall_mem_append]
    exact ⟨fun acc hacc => hscalar s₀ (h₀ _ _ _ _ hfirst acc hacc),
      fun acc hacc => hscalar s₁ (h₁ _ _ _ _ hsecond acc hacc)⟩

/-- Every load is subscripted like the result, in a tensor of its shape, or is that of a scalar. -/
theorem loads_place (idx : List τ) (hidx : idx.length = t.shape.length) (next : Nat) :
    ∀ l ∈ t.loads fixed idx next,
      S l.name = some [] ∧ l.sub = [] ∨ S l.name = some t.shape ∧ l.sub = idx := by
  refine h.inductionOn ht
    (motive := fun t => ∀ idx : List τ, idx.length = t.shape.length → ∀ next,
      ∀ l ∈ t.loads fixed idx next,
        S l.name = some [] ∧ l.sub = [] ∨ S l.name = some t.shape ∧ l.sub = idx)
    ?_ ?_ ?_ idx hidx next
  · intro id n hk hwhole hS idx _ next
    rw [loads_ident hk (hwhole.subscript_eq fixed idx), List.forall_mem_singleton]
    exact .inr ⟨hS, rfl⟩
  · intro id n hk idx _ next
    rw [loads_constant hk]
    exact List.forall_mem_nil _
  · intro id n op t₀ t₁ s₀ s₁ hop hs₀ hs₁ hops h₀ h₁ idx hidx next
    have hoperand : ∀ (s : Bool) {t : Tree}, t.shape = (bif s then [] else n.shape) →
        (∀ idx : List τ, idx.length = t.shape.length → ∀ next, ∀ l ∈ t.loads fixed idx next,
          S l.name = some [] ∧ l.sub = [] ∨ S l.name = some t.shape ∧ l.sub = idx) →
        ∀ next, ∀ l ∈ t.loads fixed (bif s then [] else idx) next,
          S l.name = some [] ∧ l.sub = [] ∨ S l.name = some n.shape ∧ l.sub = idx := by
      intro s t hs ht next l hl
      cases s with
      | true =>
        refine .inl ((ht [] (by rw [hs]; rfl) next l hl).elim (fun h => h) fun h => ?_)
        rwa [hs] at h
      | false =>
        have := ht idx (hidx.trans (by rw [hs]; rfl)) next l hl
        rwa [hs] at this
    rw [loads_arith hop (hops idx []), List.forall_mem_append, shape_node]
    exact ⟨hoperand s₀ hs₀ h₀ _, hoperand s₁ hs₁ h₁ _⟩

/-- The value in a flat loop is the one at the index of which the loop has reached the position. -/
theorem evalFlat_eq {α : Type} [Scalar α] {mem : Memory α} (hmem : mem.Formed S) {idx : List Int} {o : Int}
    (hidx : idx.length = t.shape.length) (ho : t.shape ≠ [] → rowMajor t.shape idx = some o) :
    t.evalFlat mem o = t.eval (cellsOf mem) idx := by
  refine h.inductionOn ht
    (motive := fun t => ∀ idx : List Int, idx.length = t.shape.length →
      (t.shape ≠ [] → rowMajor t.shape idx = some o) → t.evalFlat mem o = t.eval (cellsOf mem) idx)
    ?_ ?_ ?_ idx hidx ho
  · intro id n hk hwhole hS idx hidx ho
    obtain ⟨u, hu, hdims, -⟩ := hmem n.name n.shape hS
    rw [shape_node] at hidx ho
    have hoffset : u.offset idx = some (n.flatPosition o) := by
      rw [Tensor.offset, hdims, Node.flatPosition, hwhole.1, List.nil_append]
      by_cases hshape : n.shape = []
      · rw [hshape] at hidx ⊢
        rw [List.eq_nil_of_length_eq_zero hidx, if_pos rfl]
        rfl
      · rw [if_neg hshape, ho hshape]
    rw [eval_ident hk, loadAt, hwhole.subscript_eq, Option.bind_eq_bind, Option.bind_some, cellsOf,
      evalFlat, hk]
    simp only [Memory.at?, hu, Option.bind_eq_bind, Option.bind_some, Tensor.get?, hoffset]
  · intro id n hk idx _ _
    rw [eval_constant hk, evalFlat, hk]
  · intro id n op t₀ t₁ s₀ s₁ hop hs₀ hs₁ hops h₀ h₁ idx hidx ho
    rw [shape_node] at hidx ho
    have hoperand : ∀ (s : Bool) {t : Tree}, t.shape = (bif s then [] else n.shape) →
        (∀ idx : List Int, idx.length = t.shape.length →
          (t.shape ≠ [] → rowMajor t.shape idx = some o) → t.evalFlat mem o = t.eval (cellsOf mem) idx) →
        t.evalFlat mem o = t.eval (cellsOf mem) (bif s then [] else idx) := by
      intro s t hs ht
      cases s with
      | true => exact ht [] (by rw [hs]; rfl) fun hne => absurd hs hne
      | false => exact ht idx (hidx.trans (by rw [hs]; rfl)) (hs ▸ ho)
    rw [eval_arith hop (hops idx []), ← hoperand s₀ hs₀ h₀, ← hoperand s₁ hs₁ h₁, evalFlat_arith hop]

end Tree.Pointwise

/-! ## Assignments -/

namespace C.Coalesced

variable {N : NodeClass} {find : Symbols} {p : Program} {c : Clause} {a : Assignment}
  (hflat : Coalesced a c) (h : p.Places a c) (hfits : c.Fits N find)
include hflat hfits

theorem kind_ne : c.tree.kind ≠ .contraction := by
  intro hk
  obtain ⟨id, n, ts, htree⟩ := hfits.typed.exists_node
  have hpermutes := (hflat.pointwise n (by rw [htree]; simp)).1
  rw [htree, Tree.kind_node] at hk
  rw [hk] at hpermutes
  cases hpermutes

theorem stored_eq : find.shapes c.name = some c.target.shape := by
  obtain ⟨s, hs, hviews, -⟩ := hfits.declared
  rw [Symbols.shapes_eq hs, hflat.target.stored_eq hviews]

include h

/-- The loops of the assignment run over the axes in order. -/
theorem loopOrder_eq : p.loopOrder a = some (List.range c.target.shape.length) := by
  obtain ⟨n, hn, hkind⟩ := h.node?_eq
  obtain ⟨write, reads, next, haccesses, hwrite, hreads, -⟩ :=
    h.accesses_spec hfits (P := fun _ => True) (fun _ => trivial) (fun _ => trivial) fun _ _ => trivial
  rw [hflat.target.subscript_eq] at hwrite
  cases hwrite
  have haxes : ∀ r, (IndexName.results r).filterMap IndexName.axis? = List.range r := by
    intro r
    rw [IndexName.results, List.filterMap_map]
    exact List.filterMap_some
  have hcopies : ∀ (accs : List (Access IndexName)),
      (∀ acc ∈ accs, acc.index = IndexName.results c.target.shape.length ∨ acc.index = []) →
      ((accs.flatMap (·.index) ++ IndexName.results c.target.shape.length).filterMap
        IndexName.axis?).eraseDups = List.range c.target.shape.length := by
    intro accs haccs
    rw [List.filterMap_append, List.filterMap_flatMap, haxes, List.flatMap_def]
    refine eraseDups_copies List.nodup_range (List.forall_mem_map.mpr fun acc hacc => ?_)
    rcases haccs acc hacc with heq | heq
    · exact .inl (by rw [heq, haxes])
    · exact .inr (by rw [heq, List.filterMap_nil])
  have hnot : n.kind ≠ .contraction := fun hk => hflat.kind_ne hfits (hkind.symm.trans hk)
  simp only [Program.loopOrder, h.dst?_eq, hn, if_neg hnot, haccesses, Option.bind_eq_bind,
    Option.bind_some, Option.pure_def, hflat.alone]
  rw [show c.target.shape.rank = c.target.shape.length from rfl, hcopies]
  · exact congrArg some (List.filter_eq_self.mpr fun k _ => by simp)
  · rw [List.forall_mem_append, List.forall_mem_singleton]
    exact ⟨Tree.Pointwise.readsAt_index hflat.pointwise hfits.typed hreads, .inl rfl⟩

/-- The loops of the assignment visit the indices in row-major order. -/
theorem runAssignment_eq (hnonneg : ∀ d ∈ c.target.shape, 0 ≤ d) {α : Type} [Scalar α] {mem : Memory α}
    (hcontains : mem.contains c.name) (f : Int) : p.runAssignment a f mem =
      orFault ((indices c.target.shape).foldlM
        (fun mem idx => Program.runElement c.target c.tree idx mem) mem) := by
  have hstart : startIndex c.target.shape.rank a.fuseAxis f =
      some (List.replicate c.target.shape.rank 0) := by
    rw [hflat.alone]
    rfl
  have hin : ∀ k ∈ List.range c.target.shape.length, k < c.target.shape.length := fun k hk =>
    List.mem_range.mp hk
  obtain ⟨extents, hextents, -⟩ := exists_mapM_getElem? hin
  obtain rfl : extents = c.target.shape := by
    refine List.ext_getElem? fun k => ?_
    by_cases hk : k < c.target.shape.length
    · obtain ⟨d, hd, hk'⟩ := mapM_getElem? hextents (List.getElem?_range hk)
      exact hk'.trans hd.symm
    · have hlen := length_mapM hextents
      rw [List.length_range] at hlen
      rw [List.getElem?_eq_none (by omega), List.getElem?_eq_none (by omega)]
  have hplace : ∀ loops ∈ visits c.target.shape, placeLoops (List.range c.target.shape.length) loops
      (List.replicate c.target.shape.rank 0) = loops := by
    intro loops hloops
    have hlen := length_of_mem_visits hloops
    refine List.ext_getElem? fun k => ?_
    by_cases hk : k < c.target.shape.length
    · exact getElem?_placeLoops List.nodup_range (by simpa using hlen) (List.getElem?_range hk)
        (by simpa using hk)
    · rw [List.getElem?_eq_none, List.getElem?_eq_none (by omega)]
      rw [length_placeLoops (by simpa using hlen)]
      simpa using hk
  rw [h.runAssignment_visited (hflat.loopOrder_eq h hfits) (fun k hk => List.mem_range.mp hk) hstart
    hcontains, ← map_placeLoops_visits hextents, List.map_congr_left hplace, List.map_id',
    visits_eq_indices hnonneg]

end C.Coalesced

/-- The access of a declared tensor is at a given position, or the tensor is a scalar. -/
def Event.AtPosition (S : Shapes) (o : Option Int) : Event → Prop
  | .load name sub | .store name sub =>
    ∃ stored, S name = some stored ∧ (stored = [] ∨ rowMajor stored sub = o)
  | .stuck => False

namespace C.Coalesced

variable {N : NodeClass} {find : Symbols} {c : Clause} {a : Assignment}
  (hflat : Coalesced a c) (hfits : c.Fits N find)
include hflat hfits

theorem indexed {idx : List Int} (hlen : idx.length = c.target.shape.length) :
    c.tree.Indexed N.Admits find.shapes idx :=
  ⟨hfits.typed, Tree.Pointwise.unstacked hflat.pointwise,
    hlen.trans (congrArg List.length hfits.shape.symm)⟩

/-- What is accessed for an element is at the position of the element, or is a scalar. -/
theorem atPosition {idx : List Int} (hlen : idx.length = c.target.shape.length) :
    ∀ s ∈ elementSteps c.tree idx,
      (s.event c.name idx).AtPosition find.shapes (rowMajor c.target.shape idx) := by
  have hloads : ∀ l ∈ c.tree.loads id idx 0, _ :=
    Tree.Pointwise.loads_place hflat.pointwise hfits.typed idx (hflat.indexed hfits hlen).length 0
  obtain ⟨i, n, ts, htree⟩ := hfits.typed.exists_node
  rw [hfits.shape, htree] at hloads
  rw [htree, forall_elementSteps Iff.rfl]
  refine ⟨⟨_, hflat.stored_eq hfits, .inr rfl⟩, fun l hl => ?_⟩
  rcases hloads l hl with ⟨hS, -⟩ | ⟨hS, hsub⟩
  · exact ⟨_, hS, .inl rfl⟩
  · exact ⟨_, hS, .inr (by rw [hsub])⟩

variable {α : Type} [Scalar α] {mem : Memory α} (hmem : mem.Formed find.shapes)
include hmem

/-- The flat loop does for a position what the loops over the axes do for an index there. -/
theorem runFlatElement_eq {idx : List Int} {o : Int} (hlen : idx.length = c.target.shape.length)
    (ho : rowMajor c.target.shape idx = some o) :
    Program.runFlatElement c.target c.tree o mem = Program.runElement c.target c.tree idx mem := by
  have hrank : c.target.shape ≠ [] := fun hnil => by
    have := hflat.rank
    simp [hnil] at this
  have hposition : c.target.flatPosition o = o := by
    rw [Node.flatPosition, hflat.target.1, List.nil_append, if_neg hrank]
  have hstore : ∀ v, mem.setAt? c.name o v = storeAt mem c.target idx v := by
    intro v
    rw [storeAt, hflat.target.subscript_eq, Option.bind_eq_bind, Option.bind_some]
    refine OrderedMap.change?_congr fun t ht => ?_
    obtain ⟨t', ht', hdims, -⟩ := hmem _ _ (hflat.stored_eq hfits)
    cases ht.symm.trans ht'
    have hoffset : t.offset idx = some o := by rw [Tensor.offset, hdims, ho]
    rw [Tensor.set?, hoffset]
    rfl
  rw [Program.runFlatElement, hposition, Tree.Pointwise.evalFlat_eq hflat.pointwise hfits.typed hmem
    (hflat.indexed hfits hlen).length fun _ => hfits.shape ▸ ho]
  have hkind := hflat.kind_ne hfits
  obtain ⟨i, n, ts, htree⟩ := hfits.typed.exists_node
  rw [htree, Tree.kind_node] at hkind
  rw [htree, Program.runElement, if_neg hkind]
  simp only [hstore]

/-- The flat loop computes all elements. -/
theorem runFlat_eq (hnonneg : ∀ d ∈ c.target.shape, 0 ≤ d)
    (hcount : Shape.count c.target.shape < 0x8000000000000000) :
    Program.runFlat c.target c.tree mem = (indices c.target.shape).foldlM
      (fun mem idx => Program.runElement c.target c.tree idx mem) mem := by
  have hsize : c.target.shape.size = Shape.count c.target.shape := by
    have := Shape.count_nonneg hnonneg
    rw [Shape.size_eq_word, word64_of_fits (by omega) hcount]
  have hloop : Program.runFlat c.target c.tree mem = ((indices c.target.shape).map
      (flatten c.target.shape)).foldlM (fun mem o => Program.runFlatElement c.target c.tree o mem) mem := by
    rw [map_flatten_indices hnonneg, List.foldlM_map, Program.runFlat, loop_eq_foldlM, hsize]
    simp only [Int.zero_add]
    rfl
  rw [hloop, List.foldlM_map]
  refine foldlM_congr_of_preserves (Memory.Formed find.shapes) hmem fun mem idx hidx hmem => ⟨?_, ?_⟩
  · rw [mem_indices] at hidx
    exact hflat.runFlatElement_eq hfits hmem hidx.length_eq (rowMajor_eq hidx (Int.le_of_lt hcount))
  · exact fun mem' hrun => hmem.runElement (hflat.stored_eq hfits) hrun

end C.Coalesced

namespace Program

variable {p : Program} {a : Assignment}

/-- A flat loop can compute an assignment with the given destination. -/
structure Coalesces (p : Program) (a : Assignment) (dst : Node) : Prop where
  /-- What is accessed for an element is at the position of the element, or is a scalar. -/
  positions : ∀ idx : List Int, idx.length = dst.shape.length → ∃ events : List Event,
    (∀ {α : Type} [Scalar α] (mem : Memory α),
      Traced.Follows (runElementTraced dst (p.tree a.expr) idx mem) events) ∧
    ∀ e ∈ events, e.AtPosition p.find.shapes (rowMajor dst.shape idx)
  /-- The flat loop does for a position what the loops over the axes do for an index there. -/
  elements : ∀ (idx : List Int) (o : Int), idx.length = dst.shape.length →
    rowMajor dst.shape idx = some o → ∀ {α : Type} [Scalar α] (mem : Memory α),
      mem.Formed p.find.shapes →
        runFlatElement dst (p.tree a.expr) o mem = runElement dst (p.tree a.expr) idx mem
  /-- The positions of the indices are the numbers below the element count, each of them once and in
  the order of the loops, so that the flat loop does what these do. -/
  loops : (∀ d ∈ dst.shape, 0 ≤ d) → Shape.count dst.shape < 0x8000000000000000 →
    (indices dst.shape).map (rowMajor dst.shape) =
        (List.range dst.shape.size.toNat).map (fun (o : Nat) => some (o : Int)) ∧
      ∀ {α : Type} [Scalar α] (mem : Memory α), mem.Formed p.find.shapes → ∀ f,
        p.runAssignment a f mem = orFault (runFlat dst (p.tree a.expr) mem)

/-- An assignment of an accepted program that is found to be coalescible can be computed by a flat
loop. -/
theorem Accepted.coalescible_sound (h : p.Accepted) (ha : a ∈ p.assignments)
    (hcoalescible : Pass.coalescible p a = some true) :
    ∃ dst, p.dst? a = some dst ∧ p.Coalesces a dst := by
  have hplaces := h.places ha
  have hfits := h.fits_all _ (Accepted.mem_clauses ha)
  obtain ⟨b, hb, hspec⟩ := C.coalescible_spec hplaces hfits
  obtain rfl := Option.some.inj (hcoalescible.symm.trans hb)
  have hflat : Coalesced a (p.clause a) := hspec rfl
  refine ⟨_, hplaces.dst?_eq, fun idx hlen => ?_, ?_, fun hnonneg hcount =>
    ⟨map_rowMajor_indices hnonneg hcount, fun mem hmem f => ?_⟩⟩
  · refine ⟨(elementSteps (p.tree a.expr) idx).map (ElementStep.event (p.clause a).name idx), ?_,
      List.forall_mem_map.mpr (hflat.atPosition hfits hlen)⟩
    exact fun mem =>
      runElementTraced_follows (hflat.indexed hfits hlen) (hflat.target.subscript_eq id idx) mem
  · exact fun idx o hlen ho _ _ mem hmem => hflat.runFlatElement_eq hfits hmem hlen ho
  · rw [hflat.runAssignment_eq hplaces hfits hnonneg (hmem.contains (hflat.stored_eq hfits))]
    exact congrArg orFault (hflat.runFlat_eq hfits hmem hnonneg hcount).symm

/-- `y = s * x + y` -/
def scaledSum : Program where
  name := "p"
  symbols := .ofList [⟨"s", [], .input⟩, ⟨"x", [2, 3], .input⟩, ⟨"y", [2, 3], .inout⟩]
  names := { taken := ["y", "x", "s"] }
  nodes := #[{ kind := .identifier, name := "s" },
    { kind := .identifier, name := "x", shape := [2, 3] },
    { kind := .scalarMul, shape := [2, 3], operands := [0, 1] },
    { kind := .identifier, name := "y", shape := [2, 3] },
    { kind := .add, shape := [2, 3], operands := [2, 3] },
    { kind := .identifier, name := "y", shape := [2, 3] }]
  assignments := [{ dst := 5, expr := 4 }]

theorem scaledSum_accepted : scaledSum.Accepted where
  verified := Program.verify_of_ledger rfl rfl (by decide) rfl rfl
  reads := by decide

/-- The factor is read at its only position, and the matrices are read at the position of the
element. -/
theorem coalescible_sound_scaledSum : scaledSum.Accepted ∧ (⟨5, 4, none⟩ : Assignment) ∈
    scaledSum.assignments ∧ Pass.coalescible scaledSum ⟨5, 4, none⟩ = some true ∧
    ∃ dst, scaledSum.dst? ⟨5, 4, none⟩ = some dst ∧ scaledSum.Coalesces ⟨5, 4, none⟩ dst :=
  ⟨scaledSum_accepted, by decide, by decide,
    scaledSum_accepted.coalescible_sound (by decide) (by decide)⟩

/-- `y = x`, for tensors with axes of negative lengths -/
def negativeCopy : Program where
  name := "p"
  symbols := .ofList [⟨"x", [-2, -3], .input⟩, ⟨"y", [-2, -3], .output⟩]
  names := { taken := ["y", "x"] }
  nodes := #[{ kind := .identifier, name := "x", shape := [-2, -3] },
    { kind := .identifier, name := "y", shape := [-2, -3] }]
  assignments := [{ dst := 1, expr := 0 }]

theorem negativeCopy_accepted : negativeCopy.Accepted where
  verified := Program.verify_of_ledger rfl rfl (by decide) rfl rfl
  reads := by decide

/-- Six elements are copied by the flat loop, and one of them by the loops over the axes. -/
theorem coalescible_negative : ¬ ∀ (p : Program) (a : Assignment) (dst : Node), p.Accepted →
    a ∈ p.assignments → Pass.coalescible p a = some true → p.dst? a = some dst →
    ∀ {α : Type} [Scalar α] (inputs : Inputs α) (mem : Memory α),
      initialMemory inputs p.symbols.all {} = .ok mem →
        p.runAssignment a 0 mem = orFault (runFlat dst (p.tree a.expr) mem) := by
  intro h
  let _ := Scalar.int
  have heq := h negativeCopy ⟨1, 0, none⟩ _ negativeCopy_accepted (by decide) (by decide) rfl
    ([("x", [1, 2, 3, 4, 5, 6])] : Inputs Int) _ rfl
  have hy := congrArg (fun r => (r.toOption.bind (·.get? "y")).map Tensor.flat) heq
  exact absurd hy (by decide)

end Program

end LoopNest
