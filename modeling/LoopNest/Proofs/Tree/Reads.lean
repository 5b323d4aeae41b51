import LoopNest.Proofs.Tree.Typing

/-!
# Reads of a tree

`readsAt` lists the reads of an expression with their subscripts, for indices of any type. It has a
result on well-shaped trees (`Typed.readsAt_spec`), and lists every cell that the evaluation touches
(`Touches.exists_access`).
-/

namespace LoopNest

variable {τ : Type} {C : Node → Prop} {S : Shapes} {fixed : Int → τ} {sum : Nat → τ}

/-- The extents of the contracted indices, of which there are as many as contracted axes. -/
theorem Node.Fits.exists_extents {n : Node} {shapes : List Shape} (h : n.Fits S shapes) :
    ∃ es : List Int, es.length = n.lhsAxes.length ∧
      (n.kind = .contraction → ∀ x ∈ shapes.head?, n.lhsAxes.mapM (at? x) = some es) := by
  by_cases hk : n.kind = .contraction
  · cases h with
    | contraction _ hx _ _ =>
      refine ⟨_, length_mapM hx, fun _ x h => ?_⟩
      cases h
      exact hx
    | _ => simp_all [NodeKind.isElementwise]
  · exact ⟨List.replicate n.lhsAxes.length 0, List.length_replicate, fun h => absurd h hk⟩

/-- Indices of any type, one for each axis, lead to indices of the operands, one for each of their
axes. They are related to the indices of the node. -/
theorem Node.Fits.operandIndices_of_length {n : Node} {shapes : List Shape} (h : n.Fits S shapes)
    (hleaf : n.kind.isLeaf = false) {P : τ → Prop} {idx con : List τ}
    (hidx : idx.length = n.shape.length) (hP : ∀ i ∈ idx, P i)
    (hcon : con.length = n.lhsAxes.length) (hPcon : ∀ i ∈ con, P i) :
    ∃ ops, n.operandIndices (shapes.map fun s => some s.rank) idx con = some ops ∧
      List.Forall₂ (fun s idx => idx.length = s.length ∧ ∀ i ∈ idx, P i) shapes ops := by
  have hrel : ∀ {s : Shape} {l : List τ}, l.length = s.length → (∀ i ∈ l, P i) →
      List.Forall₂ (fun _ i => P i) s l := fun hlen hl =>
    List.forall₂_iff_get.mpr ⟨hlen.symm, fun i _ h => hl _ (List.get_mem _ ⟨i, h⟩)⟩
  obtain ⟨es, hlen, hes⟩ := h.exists_extents
  obtain ⟨ops, h₁, h₂⟩ := operandIndices_rel (hrel hidx hP) (hrel (hcon.trans hlen.symm) hPcon)
    (h.operandIndices_shape hleaf hes)
  refine ⟨ops, h₁, h₂.imp fun s l hl => ⟨hl.length_eq.symm, fun i hi => ?_⟩⟩
  obtain ⟨k, hk, rfl⟩ := List.mem_iff_get.mp hi
  exact (List.forall₂_iff_get.mp hl).2 k (by have := hl.length_eq; omega) k.2

namespace Tree

theorem readsAt_node (id : NodeId) (n : Node) (ts : List Tree) (idx : List τ) (next : Nat) :
    (Tree.node id n ts).readsAt fixed sum idx next = match n.kind with
      | .identifier => (n.subscript fixed idx).bind fun sub => some ([⟨id, n.name, sub, false⟩], next)
      | .constant => some ([], next)
      | _ =>
        (n.operandIndices (ts.map Tree.rank?) idx
          ((List.range n.lhsAxes.length).map fun t => sum (next + t))).bind fun ops =>
            readsOperands fixed sum ts ops (next + n.lhsAxes.length) :=
  rfl

theorem readsOperands_cons (t : Tree) (ts : List Tree) (idx : List τ) (ops : List (List τ))
    (next : Nat) : readsOperands fixed sum (t :: ts) (idx :: ops) next =
      (t.readsAt fixed sum idx next).bind fun first =>
        (readsOperands fixed sum ts ops first.2).bind fun rest =>
          some (first.1 ++ rest.1, rest.2) :=
  rfl

theorem readsOperands_cons_eq_some {t : Tree} {ts : List Tree} {idx : List τ} {ops : List (List τ)}
    {next next' : Nat} {l : List (Access τ)}
    (h : readsOperands fixed sum (t :: ts) (idx :: ops) next = some (l, next')) :
    ∃ first m rest, t.readsAt fixed sum idx next = some (first, m) ∧
      readsOperands fixed sum ts ops m = some (rest, next') ∧ l = first ++ rest := by
  obtain ⟨⟨first, m⟩, hfirst, h⟩ := Option.bind_eq_some_iff.mp h
  obtain ⟨⟨rest, m'⟩, hrest, h⟩ := Option.bind_eq_some_iff.mp h
  cases h
  exact ⟨first, m, rest, hfirst, hrest, rfl⟩

theorem readsAt_ident {id : NodeId} {n : Node} {ts : List Tree} (hk : n.kind = .identifier)
    (idx : List τ) (next : Nat) : (Tree.node id n ts).readsAt fixed sum idx next =
      (n.subscript fixed idx).map fun sub => ([⟨id, n.name, sub, false⟩], next) := by
  rw [readsAt_node, hk]
  cases n.subscript fixed idx <;> rfl

theorem readsAt_constant {id : NodeId} {n : Node} {ts : List Tree} (hk : n.kind = .constant)
    (idx : List τ) (next : Nat) :
    (Tree.node id n ts).readsAt fixed sum idx next = some ([], next) := by
  rw [readsAt_node, hk]

theorem readsAt_operation {id : NodeId} {n : Node} {ts : List Tree} (hident : n.kind ≠ .identifier)
    (hconst : n.kind ≠ .constant) (idx : List τ) (next : Nat) :
    (Tree.node id n ts).readsAt fixed sum idx next =
      (n.operandIndices (ts.map Tree.rank?) idx
        ((List.range n.lhsAxes.length).map fun t => sum (next + t))).bind fun ops =>
          readsOperands fixed sum ts ops (next + n.lhsAxes.length) := by
  rw [readsAt_node]
  split
  · exact absurd ‹_› hident
  · exact absurd ‹_› hconst
  · rfl

theorem readsAt_operands {id : NodeId} {n : Node} {ts : List Tree} (hleaf : n.kind.isLeaf = false)
    (idx : List τ) (next : Nat) : (Tree.node id n ts).readsAt fixed sum idx next =
      (n.operandIndices (ts.map Tree.rank?) idx
        ((List.range n.lhsAxes.length).map fun t => sum (next + t))).bind fun ops =>
          readsOperands fixed sum ts ops (next + n.lhsAxes.length) :=
  readsAt_operation (fun h => by simp [h, NodeKind.isLeaf] at hleaf)
    (fun h => by simp [h, NodeKind.isLeaf] at hleaf) idx next

theorem readsOperands_spec {P : Access τ → Prop} {ts : List Tree} {ops : List (List τ)}
    (h : List.Forall₂ (fun t idx => ∀ next, ∃ l next', t.readsAt fixed sum idx next = some (l, next') ∧
      ∀ acc ∈ l, P acc) ts ops) (next : Nat) :
    ∃ l next', readsOperands fixed sum ts ops next = some (l, next') ∧ ∀ acc ∈ l, P acc := by
  induction h generalizing next with
  | nil => exact ⟨[], next, rfl, by simp⟩
  | cons h _ ih =>
    obtain ⟨l, next₁, hrun, hl⟩ := h next
    obtain ⟨l', next₂, hrun', hl'⟩ := ih next₁
    refine ⟨l ++ l', next₂, by simp [readsOperands_cons, hrun, hrun'], fun acc hacc => ?_⟩
    exact (List.mem_append.mp hacc).elim (hl acc) (hl' acc)

/-- The reads of a well-shaped tree are listed, and their subscripts consist of the given indices,
fixed ones and contracted ones. -/
theorem Typed.readsAt_spec {P : τ → Prop} (hfixed : ∀ k, P (fixed k)) (hsum : ∀ t, P (sum t))
    {t : Tree} (ht : t.Typed C S) {idx : List τ} (hlen : idx.length = t.shape.length)
    (hidx : ∀ i ∈ idx, P i) (next : Nat) :
    ∃ l next', t.readsAt fixed sum idx next = some (l, next') ∧
      ∀ acc ∈ l, ∀ i ∈ acc.index, P i := by
  induction t using Tree.inductionOn generalizing idx next with
  | missing => cases ht
  | node id n ts ih =>
    cases ht with
    | node hC hfits hts =>
      cases hleaf : n.kind.isLeaf with
      | false =>
        have hcon : ((List.range n.lhsAxes.length).map fun t => sum (next + t)).length =
            n.lhsAxes.length := by simp
        obtain ⟨ops, hops, hrel⟩ :=
          hfits.operandIndices_of_length hleaf hlen hidx hcon (by simp [hsum])
        rw [← Typed.map_rank? hts] at hops
        rw [readsAt_operands hleaf, hops, Option.bind_some]
        refine readsOperands_spec (P := fun acc => ∀ i ∈ acc.index, P i) ?_ _
        rw [List.forall₂_map_left_iff] at hrel
        refine List.forall₂_iff_get.mpr ⟨hrel.length_eq, fun k hk hk' next => ?_⟩
        obtain ⟨hlen, hP⟩ := (List.forall₂_iff_get.mp hrel).2 k hk hk'
        exact ih _ (List.get_mem _ _) (hts _ (List.get_mem _ _)) hlen hP next
      | true =>
        generalize ts.map Tree.shape = shapes at hfits
        cases hfits with
        | @identifier stored hk _ hviews =>
          obtain ⟨lead, hfwd, hlead⟩ := hviews
          obtain ⟨sub, hsub⟩ := exists_forward_of_length (backward_eq_some_of_forward hfwd)
            (m := n.fixed.map fixed ++ idx) (by
              simp only [List.length_append, List.length_map, hlead.length_eq, hlen, shape_node])
          rw [readsAt_ident hk, Node.subscript, backward, hsub]
          refine ⟨_, next, rfl, ?_⟩
          simp only [List.mem_singleton, forall_eq]
          intro i hi
          rw [(perm_forward hsub).mem_iff, List.mem_append, List.mem_map] at hi
          rcases hi with ⟨k, -, rfl⟩ | hi
          · exact hfixed k
          · exact hidx i hi
        | constant hk _ => exact ⟨[], next, readsAt_constant hk idx next, by simp⟩
        | elementwise hk => simp [NodeKind.isLeaf_of_elementwise hk] at hleaf
        | scalarMul hk | scalarDiv hk | product hk | contraction hk | stack hk | transposition hk =>
          simp [hk, NodeKind.isLeaf] at hleaf

/-- The reads of an operand are among the reads of all. -/
theorem readsOperands_getElem? {ts : List Tree} {ops : List (List τ)} {next next' : Nat}
    {l : List (Access τ)} (h : readsOperands fixed sum ts ops next = some (l, next')) {j : Nat}
    {t : Tree} {idx : List τ} (ht : ts[j]? = some t) (hidx : ops[j]? = some idx) :
    ∃ m m' l', t.readsAt fixed sum idx m = some (l', m') ∧ ∀ acc ∈ l', acc ∈ l := by
  induction ts generalizing ops next l j with
  | nil => cases ht
  | cons t₀ ts ih =>
    cases ops with
    | nil => cases hidx
    | cons idx₀ ops =>
      obtain ⟨first, m, rest, hfirst, hrest, rfl⟩ := readsOperands_cons_eq_some h
      cases j with
      | zero =>
        cases ht
        cases hidx
        exact ⟨next, m, first, hfirst, fun acc hacc => List.mem_append_left _ hacc⟩
      | succ j =>
        obtain ⟨k, k', l', hl, hsub⟩ := ih hrest ht hidx
        exact ⟨k, k', l', hl, fun acc hacc => List.mem_append_right _ (hsub acc hacc)⟩

/-- A cell that the evaluation touches at an index is listed as a read, with a subscript that is
related to it whenever the indices are. -/
theorem Touches.exists_access {R : τ → Int → Prop} (hfixed : ∀ k, R (fixed k) k)
    (hsum : ∀ t i, R (sum t) i) {t : Tree} {idx : List Int} {name : String} {sub : List Int}
    (h : t.Touches idx name sub) (ht : t.Typed C S) {idx' : List τ}
    (hidx : List.Forall₂ R idx' idx) {next next' : Nat} {l : List (Access τ)}
    (hl : t.readsAt fixed sum idx' next = some (l, next')) :
    ∃ acc ∈ l, acc.name = name ∧ List.Forall₂ R acc.index sub := by
  induction h generalizing idx' next l next' with
  | @ident i n ts idx sub hk hsub =>
    rw [readsAt_ident hk, Option.map_eq_some_iff] at hl
    obtain ⟨sub', hsub', heq⟩ := hl
    cases heq
    obtain ⟨sub₂, hsub₂, hrel⟩ : ∃ sub₂, n.subscript id idx = some sub₂ ∧ List.Forall₂ R sub' sub₂ :=
      Node.subscript_rel (List.forall₂_map_left_iff.mpr (List.forall₂_map_right_iff.mpr
        (List.forall₂_same.mpr fun k _ => hfixed k))) hidx hsub'
    rw [hsub] at hsub₂
    cases hsub₂
    exact ⟨_, List.mem_singleton_self _, rfl, hrel⟩
  | @operand i n ts idx con ops j t idx₁ name sub hleaf hcon hops htj hij _ ih =>
    rw [readsAt_operands hleaf, Option.bind_eq_some_iff] at hl
    obtain ⟨ops', hops', hreads⟩ := hl
    have hrelcon : ∀ {con : List Int}, con.length = n.lhsAxes.length →
        List.Forall₂ R ((List.range n.lhsAxes.length).map fun t => sum (next + t)) con := by
      intro con hlen
      refine List.forall₂_iff_get.mpr ⟨by simp [hlen], fun k hk hk' => ?_⟩
      simp [hsum]
    have hops₂ : ∃ ops₂, n.operandIndices (ts.map Tree.rank?) idx con = some ops₂ ∧
        List.Forall₂ (List.Forall₂ R) ops' ops₂ := by
      by_cases hk : n.kind = .contraction
      · obtain ⟨es, hes, hext⟩ := hcon hk
        have hlen : con.length = n.lhsAxes.length := by
          rw [hes.length_eq]
          simp only [Node.contractedExtents, Option.bind_eq_bind, Option.bind_eq_some_iff] at hext
          obtain ⟨_, -, hmap⟩ := hext
          obtain ⟨_, -, hmap⟩ := hmap
          exact length_mapM hmap
        exact Node.operandIndices_rel hidx (hrelcon hlen) hops'
      · rw [Node.operandIndices_of_ne_contraction hk _ _ con
          (List.replicate n.lhsAxes.length 0)]
        exact Node.operandIndices_rel hidx (hrelcon List.length_replicate) hops'
    obtain ⟨ops₂, hops₂, hrel⟩ := hops₂
    rw [hops] at hops₂
    cases hops₂
    obtain ⟨idx₂, hij', hrelidx⟩ := forall₂_getElem? hrel.flip hij
    obtain ⟨m, m', l', hl', hsub⟩ := readsOperands_getElem? hreads htj hij'
    cases ht with
    | node _ _ hts =>
      obtain ⟨acc, hacc, hname, hrelacc⟩ :=
        ih (hts _ (List.mem_of_getElem? htj)) hrelidx hl'
      exact ⟨acc, hsub acc hacc, hname, hrelacc⟩

end Tree

end LoopNest
