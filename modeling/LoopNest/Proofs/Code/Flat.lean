import LoopNest.Proofs.Code.Clauses

/-!
# Flat loops

An assignment whose nodes all combine element by element, and which reads and writes whole tensors as
they are stored, can be computed by one loop over the positions of a row-major array: every read of a
tensor of the shape of the result is at the position of the element that is written (`flat_spec`).
-/

namespace LoopNest

/-- Whether all nodes of a tree have a property is decided on well-shaped trees. -/
theorem Tree.Typed.every_spec {C : Node → Prop} {S : Shapes} (holds : Node → Bool) {t : Tree}
    (ht : t.Typed C S) : ∃ b, t.every holds = some b ∧ (b = true → ∀ n ∈ t.labels, holds n = true) := by
  induction ht with
  | @node id n ts _ _ hts ih =>
    have hlabels : ∀ us : List Tree, (∀ u ∈ us, u ∈ ts) → us.all (·.label?.isSome) = true := by
      intro us hus
      rw [List.all_eq_true]
      intro u hu
      cases hts u (hus u hu)
      rfl
    have hoperands : ∀ us : List Tree, (∀ u ∈ us, u ∈ ts) → ∃ b, Tree.everyOperand holds us = some b ∧
        (b = true → ∀ n ∈ us.flatMap Tree.labels, holds n = true) := by
      intro us
      induction us with
      | nil => exact fun _ => ⟨true, rfl, by simp⟩
      | cons u us ihus =>
        intro hus
        obtain ⟨b, hb, hall⟩ := ih u (hus u (.head _))
        obtain ⟨b', hb', hall'⟩ := ihus fun u hu => hus u (List.mem_cons_of_mem _ hu)
        cases b with
        | false =>
          refine ⟨false, ?_, by simp⟩
          simp [Tree.everyOperand, hb, hlabels us fun u hu => hus u (List.mem_cons_of_mem _ hu)]
        | true =>
          refine ⟨b', by simp [Tree.everyOperand, hb, hb'], fun htrue n hn => ?_⟩
          rw [List.flatMap_cons, List.mem_append] at hn
          exact hn.elim (hall rfl n) (hall' htrue n)
    by_cases hn : holds n = true
    · obtain ⟨b, hb, hall⟩ := hoperands ts fun _ h => h
      refine ⟨b, by simp [Tree.every, hn, hb], fun htrue m hm => ?_⟩
      rw [Tree.labels_node, List.mem_cons] at hm
      rcases hm with rfl | hm
      · exact hn
      · exact hall htrue m hm
    · exact ⟨false, by simp [Tree.every, hn], by simp⟩

/-- The operands of a node that combines element by element are indexed like the node or are scalars,
whatever the indices are. -/
theorem Tree.Typed.pointwise {C : Node → Prop} {S : Shapes} {id : NodeId} {n : Node} {ts : List Tree}
    (ht : (Tree.node id n ts).Typed C S) (hpermutes : n.kind.permutes = false) :
    n.kind = .identifier ∧ ts = [] ∨ n.kind = .constant ∧ ts = [] ∨
      ∃ (op : ArithOp) (t₀ t₁ : Tree) (s₀ s₁ : Bool), n.kind.arith? = some op ∧ ts = [t₀, t₁] ∧
        t₀.shape = (bif s₀ then [] else n.shape) ∧ t₁.shape = (bif s₁ then [] else n.shape) ∧
        ∀ {τ : Type} (idx con : List τ), n.operandIndices (ts.map Tree.rank?) idx con =
          some [bif s₀ then [] else idx, bif s₁ then [] else idx] := by
  cases ht with
  | node _ hfits _ =>
    generalize hshapes : ts.map Tree.shape = shapes at hfits
    cases hfits with
    | identifier hk => exact .inl ⟨hk, List.map_eq_nil_iff.mp hshapes⟩
    | constant hk => exact .inr (.inl ⟨hk, List.map_eq_nil_iff.mp hshapes⟩)
    | elementwise hk =>
      obtain ⟨t₀, t₁, rfl, h₀, h₁⟩ := Tree.map_eq_pair hshapes
      obtain ⟨op, hop⟩ := NodeKind.exists_arith (.inl hk)
      exact .inr (.inr ⟨op, t₀, t₁, false, false, hop, rfl, h₀, h₁,
        fun idx con => n.operandIndices_elementwise hk _ _ _⟩)
    | scalarMul hk =>
      obtain ⟨t₀, t₁, rfl, h₀, h₁⟩ := Tree.map_eq_pair hshapes
      exact .inr (.inr ⟨.mul, t₀, t₁, true, false, by rw [hk]; rfl, rfl, h₀, h₁,
        fun idx con => by simp [Node.operandIndices, hk]⟩)
    | scalarDiv hk =>
      obtain ⟨t₀, t₁, rfl, h₀, h₁⟩ := Tree.map_eq_pair hshapes
      exact .inr (.inr ⟨.div, t₀, t₁, false, true, by rw [hk]; rfl, rfl, h₀, h₁,
        fun idx con => by simp [Node.operandIndices, hk]⟩)
    | product hk | contraction hk | stack hk | transposition hk =>
      rw [hk] at hpermutes
      cases hpermutes

namespace C

variable {α : Type} {S : Shapes} {c : Clause} {K : ShapeClass} {p : Program} {a : Assignment}

/-- An identifier that stands for a whole tensor as it is stored. -/
def Whole (n : Node) : Prop := n.fixed = [] ∧ n.perm = []

theorem Whole.subscript_eq {τ : Type} {n : Node} (h : Whole n) (fixed : Int → τ) (own : List τ) :
    n.subscript fixed own = some own := by
  rw [Node.subscript, h.1, h.2]
  rfl

theorem Whole.stored_eq {n : Node} {stored : Shape} (h : Whole n) (hviews : n.Views stored) :
    stored = n.shape := by
  obtain ⟨lead, hfwd, hlead⟩ := hviews
  rw [h.2] at hfwd
  rw [h.1] at hlead
  cases hlead
  exact Option.some.inj hfwd

/-- An assignment that one flat loop can compute. -/
structure Coalesced (a : Assignment) (c : Clause) : Prop where
  alone : a.fuseAxis = none
  rank : 2 ≤ c.target.shape.length
  target : Whole c.target
  pointwise : ∀ n ∈ c.tree.labels, n.kind.permutes = false ∧ (n.kind = .identifier → Whole n)

/-- Whether one flat loop can compute an assignment is decided. -/
theorem coalescible_spec {N : NodeClass} {find : Symbols} (h : p.Places a c) (hfits : c.Fits N find) :
    ∃ b, Pass.coalescible p a = some b ∧ (b = true → Coalesced a c) := by
  have hwhole : ∀ n : Node, (n.fixed.isEmpty && n.perm.isEmpty) = true ↔ Whole n := by
    intro n
    rw [Bool.and_eq_true, List.isEmpty_iff, List.isEmpty_iff]
    rfl
  obtain ⟨fits, hevery, hall⟩ := hfits.typed.every_spec fun n =>
    !n.kind.permutes && (n.kind != .identifier || (n.fixed.isEmpty && n.perm.isEmpty))
  obtain ⟨write, reads, next, haccesses, -⟩ :=
    h.accesses_spec hfits (P := fun _ => True) (fun _ => trivial) (fun _ => trivial) fun _ _ => trivial
  rw [Pass.coalescible, h.dst?_eq, Option.bind_eq_bind, Option.bind_some, h.tree_eq]
  by_cases hshort : (decide (c.target.shape.rank < 2) || a.fuseAxis.isSome) = true
  · exact ⟨false, by rw [if_pos hshort]; rfl, by simp⟩
  rw [if_neg hshort]
  simp only [hevery, Option.bind_eq_bind, Option.bind_some]
  by_cases hfit : (!fits || !(c.target.fixed.isEmpty && c.target.perm.isEmpty)) = true
  · exact ⟨false, by rw [if_pos hfit]; rfl, by simp⟩
  rw [if_neg hfit]
  simp only [haccesses, Option.bind_some]
  refine ⟨_, rfl, fun _ => ?_⟩
  simp only [Bool.or_eq_true, decide_eq_true_eq, not_or, Bool.not_eq_true, Option.isSome_eq_false_iff,
    Option.isNone_iff_eq_none] at hshort
  simp only [Bool.or_eq_true, Bool.not_eq_true', not_or, Bool.not_eq_false] at hfit
  refine ⟨hshort.2, Nat.le_of_not_lt hshort.1, (hwhole _).mp hfit.2, fun n hn => ?_⟩
  have hn := hall hfit.1 n hn
  simp only [Bool.and_eq_true, Bool.not_eq_true', Bool.or_eq_true, bne_iff_ne, ne_eq] at hn
  exact ⟨hn.1, fun hk => (hwhole n).mp (by
    rw [Bool.and_eq_true]
    exact hn.2.resolve_left fun hne => hne hk)⟩

/-! ## The region of a flat loop -/

/-- The index of a result whose position a flat loop has reached. -/
def flatRegion (index : String) (shape : Shape) : Region where
  At env idx := InRange shape idx ∧ ∀ o, env.lookup index = some o → flatten shape idx = o
  narrow hsub hidx := ⟨hidx.1, fun o ho => hidx.2 o (hsub index o ho)⟩

section

variable {index : String} {shape : Shape} {env : Env} {idx : List Int}

theorem flatRegion_cons {o : Int} :
    (flatRegion index shape).At ((index, o) :: env) idx ↔ InRange shape idx ∧ flatten shape idx = o := by
  refine and_congr_right fun _ => ⟨fun h => h o (by simp), fun h v hv => ?_⟩
  rw [List.lookup_cons, beq_self_eq_true] at hv
  cases hv
  exact h

theorem flatRegion_none (hnone : env.lookup index = none) :
    (flatRegion index shape).At env idx ↔ InRange shape idx := by
  refine ⟨fun h => h.1, fun h => ⟨h, fun o ho => ?_⟩⟩
  rw [hnone] at ho
  cases ho

/-- The flat loop divides the indices of a result by their positions. -/
theorem flat_divides [Scalar α] {layout : Layout} (hpos : ∀ d ∈ c.target.shape, 0 < d)
    (hS : S c.name = some c.target.shape) (index : String) :
    (clauseScene (α := α) layout S c (flatRegion index c.target.shape)).Divides index
      (Shape.count c.target.shape) := by
  intro f hnone hpoint
  refine ⟨fun o lo hi => ?_, fun σ rest hrest => loop_completes (fun haddressable =>
    (haddressable c.name _ hS).2) (fun idx => ?_) (fun o o' idx ho ho' => ?_) hpoint hrest⟩
  · obtain ⟨idx, hidx, hflat⟩ := exists_flatten (fun d hd => Int.le_of_lt (hpos d hd)) lo hi
    exact ⟨idx, flatRegion_cons.2 ⟨hidx, hflat⟩⟩
  · rw [flatRegion_none hnone]
    constructor
    · intro h
      obtain ⟨lo, hi⟩ := flatten_bounds h
      exact ⟨_, lo, hi, flatRegion_cons.2 ⟨h, rfl⟩⟩
    · rintro ⟨o, -, -, h⟩
      exact h.1
  · rw [← (flatRegion_cons.1 ho).2, ← (flatRegion_cons.1 ho').2]

end

/-! ## The code in a flat loop -/

variable [Scalar α] {index : String} {result : List Index}

/-- A subtree in a flat loop: it is indexed like the result or is a scalar. -/
structure Pointwise (c : Clause) (S : Shapes) (result : List Index) (t : Tree) (is : List Index)
    (view : List Int → List Int) : Prop where
  typed : ∃ K : ShapeClass, t.Typed K.Admits S
  pointwise : ∀ n ∈ t.labels, n.kind.permutes = false ∧ (n.kind = .identifier → Whole n)
  indexed : is = result ∧ t.shape = c.target.shape ∧ (∀ idx, view idx = idx) ∨
    is = [] ∧ t.shape = [] ∧ ∀ idx, view idx = []
  touches : ∀ idx name sub, t.Touches (view idx) name sub → c.tree.Touches idx name sub

namespace Pointwise

variable {id : NodeId} {n : Node} {ts : List Tree} {is : List Index} {view : List Int → List Int}

/-- The operands of a node are indexed like the node or are scalars. -/
theorem exists_views (h : Pointwise c S result (.node id n ts) is view) :
    n.kind = .identifier ∨ n.kind = .constant ∨ ∃ (op : ArithOp) (t₀ t₁ : Tree)
      (is₀ is₁ : List Index) (view₀ view₁ : List Int → List Int), n.kind.arith? = some op ∧ ts = [t₀, t₁] ∧
      n.operandIndices (ts.map Tree.rank?) is [] = some [is₀, is₁] ∧
      (∀ idx, n.operandIndices (ts.map Tree.rank?) (view idx) [] = some [view₀ idx, view₁ idx]) ∧
      (is₀ = result ∧ t₀.shape = c.target.shape ∧ (∀ idx, view₀ idx = idx) ∨
        is₀ = [] ∧ t₀.shape = [] ∧ ∀ idx, view₀ idx = []) ∧
      (is₁ = result ∧ t₁.shape = c.target.shape ∧ (∀ idx, view₁ idx = idx) ∨
        is₁ = [] ∧ t₁.shape = [] ∧ ∀ idx, view₁ idx = []) := by
  obtain ⟨K, htyped⟩ := h.typed
  have hindexed := h.indexed
  rw [Tree.shape_node] at hindexed
  rcases htyped.pointwise (h.pointwise n (by simp)).1 with
    ⟨hk, -⟩ | ⟨hk, -⟩ | ⟨op, t₀, t₁, s₀, s₁, hop, rfl, h₀, h₁, hops⟩
  · exact .inl hk
  · exact .inr (.inl hk)
  · have hoperand : ∀ (s : Bool) {t : Tree}, t.shape = (bif s then [] else n.shape) →
        ((bif s then [] else is) = result ∧ t.shape = c.target.shape ∧
          (∀ idx, (bif s then [] else view idx) = idx) ∨
        (bif s then [] else is) = [] ∧ t.shape = [] ∧ ∀ idx, (bif s then [] else view idx) = []) := by
      intro s t ht
      cases s with
      | true => exact .inr ⟨rfl, ht, fun _ => rfl⟩
      | false => exact ht ▸ hindexed
    exact .inr (.inr ⟨op, t₀, t₁, _, _, fun idx => bif s₀ then [] else view idx,
      fun idx => bif s₁ then [] else view idx, hop, rfl, hops is [], fun idx => hops (view idx) [],
      hoperand s₀ h₀, hoperand s₁ h₁⟩)

theorem operands (h : Pointwise c S result (.node id n ts) is view) :
    n.kind = .identifier ∨ n.kind = .constant ∨ ∃ (op : ArithOp) (t₀ t₁ : Tree)
      (is₀ is₁ : List Index) (view₀ view₁ : List Int → List Int), n.kind.arith? = some op ∧ ts = [t₀, t₁] ∧
      n.operandIndices (ts.map Tree.rank?) is [] = some [is₀, is₁] ∧
      Pointwise c S result t₀ is₀ view₀ ∧ Pointwise c S result t₁ is₁ view₁ ∧
      ∀ idx, n.operandIndices (ts.map Tree.rank?) (view idx) [] = some [view₀ idx, view₁ idx] := by
  refine h.exists_views.imp_right (Or.imp_right ?_)
  rintro ⟨op, t₀, t₁, is₀, is₁, view₀, view₁, hop, rfl, hops, hview, h₀, h₁⟩
  obtain ⟨K, htyped⟩ := h.typed
  have hcon : n.kind ≠ .contraction := fun hk => by
    have hpermutes := (h.pointwise n (by simp)).1
    rw [hk] at hpermutes
    cases hpermutes
  have hoperand : ∀ {k : Nat} {t : Tree} {is' : List Index} {view' : List Int → List Int},
      [t₀, t₁][k]? = some t → (∀ idx, [view₀ idx, view₁ idx][k]? = some (view' idx)) →
      (is' = result ∧ t.shape = c.target.shape ∧ (∀ idx, view' idx = idx) ∨
        is' = [] ∧ t.shape = [] ∧ ∀ idx, view' idx = []) → Pointwise c S result t is' view' := by
    intro k t is' view' ht hview' hindexed
    have hmem := List.mem_of_getElem? ht
    refine ⟨⟨K, ?_⟩, fun m hm => h.pointwise m ?_, hindexed, fun idx name sub htouch => ?_⟩
    · cases htyped with
      | node _ _ hts => exact hts t hmem
    · rw [Tree.labels_node, List.mem_cons, List.mem_flatMap]
      exact .inr ⟨t, hmem, hm⟩
    · exact h.touches idx name sub (.operand (NodeKind.isLeaf_of_arith hop)
        (fun hk => absurd hk hcon) (hview idx) ht (hview' idx) htouch)
  exact ⟨op, t₀, t₁, is₀, is₁, view₀, view₁, hop, rfl, hops, hoperand (k := 0) rfl (fun _ => rfl) h₀,
    hoperand (k := 1) rfl (fun _ => rfl) h₁, hview⟩

end Pointwise

/-- The writer is in the flat loop. -/
def InFlat (index : String) (w : Writer) : Prop := w.flat = some index ∧ w.isOpen index = true

/-- An element in a flat loop is addressed by the index of the loop, or is that of a scalar. -/
theorem flatAccess_spec (view : List Int → List Int) {n : Node} (hwhole : Whole n)
    (hstored : p.storedShape? n = some n.shape) {is : List Index} (hresult : result ≠ [])
    (hindexed : is = result ∧ n.shape = c.target.shape ∧ (∀ idx, view idx = idx) ∨
      is = [] ∧ n.shape = [] ∧ ∀ idx, view idx = []) {w : Writer} (hw : InFlat index w) :
    ∃ o, Emit.access p .rowMajor n is w = .ok (⟨n.name, o⟩, w) ∧
      (clauseScene (α := α) .rowMajor S c (flatRegion index c.target.shape)).Emits w w fun _ =>
        (clauseScene (α := α) .rowMajor S c (flatRegion index c.target.shape)).Addresses .rowMajor o
          n.shape fun idx => n.subscript id (view idx) := by
  have hensure : w.ensure is = w := by rw [Writer.ensure, if_pos (by rw [hw.1]; rfl)]
  have hrun : Emit.access p .rowMajor n is w =
      .ok (⟨n.name, if is = [] then .index (.fixed 0) else .index (.loop index)⟩, w) := by
    rw [Emit.access, hstored]
    refine (Emit.bind_ok (Emit.demand_run (hwhole.subscript_eq _ _))).trans ?_
    refine (Emit.bind_ok (Emit.modify_run _)).trans ?_
    rw [hensure]
    refine (Emit.bind_ok Emit.get_run).trans ?_
    rw [hw.1]
    rcases hindexed with ⟨rfl, -⟩ | ⟨rfl, hshape, -⟩
    · rw [if_neg hresult]
      cases is with
      | nil => exact absurd rfl hresult
      | cons => rfl
    · rw [hshape]
      rfl
  rcases hindexed with ⟨rfl, hshape, hview⟩ | ⟨rfl, hshape, hview⟩
  · rw [if_neg hresult] at hrun
    refine ⟨_, hrun, .refl fun _ f hf f' idx hwithin hat => ?_⟩
    obtain ⟨o, ho⟩ := Option.isSome_iff_exists.mp ((hf.bound index).mp hw.2)
    have ho' := hwithin.indices index o ho
    refine ⟨idx, by dsimp only; rw [hview, hwhole.subscript_eq], hshape ▸ hat.1, fun _ => ?_⟩
    rw [Offset.eval, Index.eval, ho', position, hshape, hat.2 o ho']
  · refine ⟨_, hrun, .refl fun _ f _ f' idx _ _ => ?_⟩
    exact ⟨[], by dsimp only; rw [hview, hwhole.subscript_eq], hshape ▸ .nil, fun _ => by
      rw [hshape]
      rfl⟩

/-- Trees are written in a flat loop at the indices of the result. -/
def flatCoding (h : Codable K p S c) (hresult : result ≠ []) (index : String) :
    Coding p .rowMajor (clauseScene (α := α) .rowMajor S c (flatRegion index c.target.shape)) where
  Good := Pointwise c S result
  Ready := InFlat index
  ready h hgrows := ⟨hgrows.flat.trans h.1, hgrows.opened _ h.2⟩
  missing h := by
    obtain ⟨K, h⟩ := h.typed
    cases h
  operands h := by
    refine h.operands.imp_right (Or.imp_right ?_)
    rintro ⟨op, t₀, t₁, is₀, is₁, view₀, view₁, hop, hts, hops, h₀, h₁, hview⟩
    exact ⟨op, t₀, t₁, is₀, is₁, view₀, view₁, hop, hts, hops, h₀, h₁, fun _ idx _ => hview idx⟩
  read {id n ts is view w} hgood hk hw := by
    obtain ⟨K, htyped⟩ := hgood.typed
    obtain ⟨stored, hS, hviews⟩ := htyped.identifier hk
    have hwhole := (hgood.pointwise n (by simp)).2 hk
    obtain rfl := hwhole.stored_eq hviews
    obtain ⟨o, hrun, hemits⟩ := flatAccess_spec (α := α) (S := S) view hwhole (h.stored n.name _ hS) hresult
      hgood.indexed hw
    exact ⟨_, w, hrun, hemits.mono fun σ f _ haddr =>
      (h.reads (flatRegion index c.target.shape) fun hat => hat.1).values hS
        (fun _ idx s _ hs => hgood.touches idx n.name s (.ident hk hs)) haddr σ⟩

/-- The code in a flat loop computes the elements of an assignment. -/
theorem Codable.flat_spec (h : Codable K p S c) (hflat : Coalesced a c) (hresult : result ≠ []) {w : Writer}
    (hw : InFlat index w) : ∃ w', Emit.body p .rowMajor c.target c.tree result w = .ok ((), w') ∧
      (clauseScene (α := α) .rowMajor S c (flatRegion index c.target.shape)).Writes w w' := by
  obtain ⟨stored, hS, hviews⟩ := h.target
  obtain rfl := hflat.target.stored_eq hviews
  have hkind : c.tree.kind ≠ .contraction := by
    intro hk
    obtain ⟨id, n, ts, htree⟩ := h.typed.exists_node
    have hpermutes := (hflat.pointwise n (by rw [htree]; simp)).1
    rw [htree, Tree.kind_node] at hk
    rw [hk] at hpermutes
    cases hpermutes
  have hgood : (flatCoding (α := α) h hresult index).Good c.tree result fun idx => idx :=
    ⟨⟨K, h.typed⟩, hflat.pointwise, .inl ⟨rfl, h.shape, fun _ => rfl⟩, fun _ _ _ htouch => htouch⟩
  refine h.body_spec (R := flatRegion index c.target.shape) hkind (fun hat => hat.1)
    (flatCoding h hresult index) hgood hS (fun w hw => ?_) hw
  obtain ⟨o, hrun, hemits⟩ := flatAccess_spec (α := α) (S := S) (c := c) (fun idx => idx) hflat.target
    (h.stored c.name _ hS) hresult
    (.inl ⟨rfl, rfl, fun _ => rfl⟩) hw
  exact ⟨o, w, hrun, hemits⟩

end C

end LoopNest
