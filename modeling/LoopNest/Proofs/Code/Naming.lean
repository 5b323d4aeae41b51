import LoopNest.Proofs.Code.Operands
import LoopNest.Proofs.Tree.Reads
import LoopNest.Proofs.Tree.Unfolding

/-!
# Named indices

When every coordinate of the points of a scene has a name, an index that is written stands for a
coordinate or for a fixed position (`Stands`). Subscripts and operand indices only move indices
around, so what is written for them stands for what the interpreter computes (`Named.operands`), and
the address of an element evaluates to its position once the loops of its subscript are open
(`access_spec`).
-/

namespace LoopNest.C

variable {α : Type} {p : Program} {layout : Layout} {sc : Scene α} {names : List String} {S : Shapes}

/-- An index stands for a coordinate of a point, by its name, or for a fixed position. -/
def Stands (names : List String) (pt : List Int) (i : Index) (v : Int) : Prop :=
  i = .fixed v ∨ ∃ (k : Nat) (name : String), names[k]? = some name ∧ pt[k]? = some v ∧ i = .loop name

theorem stands_names (names : List String) {pt : List Int} (hlen : pt.length = names.length) :
    List.Forall₂ (Stands names pt) (names.map Index.loop) pt := by
  refine List.forall₂_iff_get.mpr ⟨by simp [hlen], fun k hk hk' => .inr ⟨k, names[k], ?_, ?_, ?_⟩⟩
  · exact List.getElem?_eq_getElem _
  · exact List.getElem?_eq_getElem hk'
  · simp

/-- In the scope of a loop, its index has the value of the coordinate that it names. -/
def Scene.Agrees (sc : Scene α) (names : List String) : Prop :=
  ∀ ⦃env : Env⦄ ⦃pt : List Int⦄ ⦃k : Nat⦄ ⦃name : String⦄ ⦃v : Int⦄, sc.At env pt →
    names[k]? = some name → env.lookup name = some v → pt[k]? = some v

/-- An address evaluates to the position of a subscript, in a scope and all inner ones. -/
def Scene.Addresses (sc : Scene α) (layout : Layout) (o : Offset) (stored : Shape)
    (sub : List Int → Option (List Int)) (f : Locals α) : Prop :=
  ∀ f' pt, f.Within f' → sc.At f'.indices pt → ∃ s, sub pt = some s ∧ InRange stored s ∧
    (Shape.count stored ≤ 0x80000000 → o.eval f' = some (position layout stored s))

/-- The loops of all names are open or can be opened. -/
def Scene.Reachable [Scalar α] (sc : Scene α) (names : List String) (w : Writer) : Prop :=
  w.flat = none ∧ ∀ name ∈ names, w.isOpen name = true ∨ sc.Divides name (w.extentOf name)

theorem Scene.Reachable.grows [Scalar α] {w w' : Writer} (h : sc.Reachable names w)
    (hgrows : w.Grows w') : sc.Reachable names w' := by
  refine ⟨hgrows.flat.trans h.1, fun name hname => ?_⟩
  rw [hgrows.extents]
  exact (h.2 name hname).imp_left (hgrows.opened name)

theorem mem_loopName {pt s : List Int} {stored : Shape} {is : List Index}
    (h : List.Forall₂ (Stands names pt) is s) (hs : InRange stored s) {i : Index} (hi : i ∈ is)
    {name : String} (hname : i.loopName? = some name) : name ∈ names := by
  obtain ⟨k, hk⟩ := List.mem_iff_getElem?.mp hi
  obtain ⟨v, hv, hstands⟩ := forall₂_getElem? h hk
  rcases hstands with rfl | ⟨j, name', hj, -, rfl⟩
  · obtain ⟨d, -, hd⟩ := forall₂_getElem? (inRange_iff_forall₂.mp hs).flip hv
    rw [Index.loopName?, if_neg (by omega)] at hname
    cases hname
  · cases hname
    exact List.mem_of_getElem? hj

theorem evaluates_of_stands {f : Locals α} {pt s : List Int} {is : List Index} (hagrees : sc.Agrees names)
    (hpt : sc.At f.indices pt) (h : List.Forall₂ (Stands names pt) is s)
    (hbound : ∀ i ∈ is, ∀ name, i.loopName? = some name → (f.indices.lookup name).isSome = true) :
    Evaluates f is s := by
  induction h with
  | nil => exact .nil
  | cons hi _ ih =>
    refine .cons ?_ (ih fun i hi => hbound i (List.mem_cons_of_mem _ hi))
    rcases hi with rfl | ⟨k, name, hk, hv, rfl⟩
    · rfl
    · obtain ⟨v, hlookup⟩ := Option.isSome_iff_exists.mp (hbound _ (.head _) name rfl)
      have hv' := hagrees hpt hk hlookup
      rw [hv] at hv'
      cases hv'
      exact hlookup

section

variable [Scalar α]

/-- The element of an identifier: its address evaluates to the position of its subscript. -/
theorem access_spec (hagrees : sc.Agrees names) (hpoint : ∃ env pt, sc.At env pt) {n : Node}
    {stored : Shape} (hstored : p.storedShape? n = some stored) (hviews : n.Views stored)
    {is : List Index} {view : List Int → List Int}
    (hstands : ∀ env pt, sc.At env pt →
      List.Forall₂ (Stands names pt) is (view pt) ∧ InRange n.shape (view pt))
    {w : Writer} (hw : sc.Reachable names w) :
    ∃ o w', Emit.access p layout n is w = .ok (⟨n.name, o⟩, w') ∧
      (sc.Emits w w' fun _ => sc.Addresses layout o stored fun pt => n.subscript id (view pt)) ∧
      ∀ name, w'.isOpen name = true → w.isOpen name = true ∨ name ∈ names := by
  have hfixed : ∀ pt, List.Forall₂ (fun i v => Stands names pt i v) (n.fixed.map Index.fixed)
      (n.fixed.map id) := by
    intro pt
    rw [List.forall₂_map_left_iff, List.forall₂_map_right_iff, List.forall₂_same]
    exact fun v _ => .inl rfl
  -- what is written for the subscript does not depend on the point
  obtain ⟨env₀, pt₀, hpt₀⟩ := hpoint
  obtain ⟨sub, hsub⟩ : ∃ sub, n.subscript Index.fixed is = some sub := by
    obtain ⟨s, hs, -⟩ := hviews.subscript_inRange (hstands env₀ pt₀ hpt₀).2
    obtain ⟨sub, hsub, -⟩ := n.subscript_rel (hfixed pt₀).flip (hstands env₀ pt₀ hpt₀).1.flip hs
    exact ⟨sub, hsub⟩
  have hpoints : ∀ env pt, sc.At env pt → ∃ s, n.subscript id (view pt) = some s ∧
      InRange stored s ∧ List.Forall₂ (Stands names pt) sub s := by
    intro env pt hpt
    obtain ⟨s, hs, hin⟩ := hviews.subscript_inRange (hstands env pt hpt).2
    obtain ⟨s', hs', hrel⟩ := n.subscript_rel (hfixed pt) (hstands env pt hpt).1 hsub
    rw [hs] at hs'
    cases hs'
    exact ⟨s, hs, hin, hrel⟩
  obtain ⟨s₀, -, hin₀, hrel₀⟩ := hpoints env₀ pt₀ hpt₀
  obtain ⟨o, ho, heval⟩ := offsetOf_spec layout (hrel₀.length_eq.trans hin₀.length_eq)
  have hensure := Scene.Emits.ensure hw.1 fun i hi name hname =>
    hw.2 name (mem_loopName hrel₀ hin₀ hi hname)
  refine ⟨o, w.ensure sub, ?_, hensure.mono fun _ f hf hbound f' pt hwithin hpt => ?_,
    fun name hopen => ?_⟩
  · have hflat : (w.ensure sub).flat = none := hensure.grows.flat.trans hw.1
    rw [Emit.access, hstored]
    refine (Emit.bind_ok (Emit.demand_run hsub)).trans ?_
    refine (Emit.bind_ok (Emit.modify_run _)).trans ?_
    refine (Emit.bind_ok Emit.get_run).trans ?_
    rw [hflat]
    exact (Emit.bind_ok (Emit.demand_run ho)).trans rfl
  · obtain ⟨s, hs, hin, hrel⟩ := hpoints _ pt hpt
    refine ⟨s, hs, hin, fun hcount => heval (evaluates_of_stands hagrees hpt hrel
      fun i hi name hname => ?_) hin hcount⟩
    obtain ⟨v, hv⟩ := Option.isSome_iff_exists.mp (hbound i hi name hname)
    exact Option.isSome_iff_exists.mpr ⟨v, hwithin.indices name v hv⟩
  · refine ((Writer.isOpen_ensure hw.1).mp hopen).imp_right ?_
    rintro ⟨i, hi, hname⟩
    exact mem_loopName hrel₀ hin₀ hi hname

end

/-! ## Subtrees -/

/-- Kinds of nodes that code can be written for, below the root of an assignment. -/
def Plain (t : Tree) : Prop :=
  ∀ n ∈ t.labels, n.kind ≠ .contraction ∧ n.kind ≠ .stack ∧ n.kind ≠ .transposition

/-- A subtree that is written at named indices: at every point these stand for an index of its shape,
and what it touches there is among what is known of the point. -/
structure Named (sc : Scene α) (names : List String) (S : Shapes)
    (Touch : List Int → String → List Int → Prop) (t : Tree) (is : List Index)
    (view : List Int → List Int) : Prop where
  typed : ∃ K : ShapeClass, t.Typed K.Admits S
  plain : Plain t
  stands : ∀ env pt, sc.At env pt → List.Forall₂ (Stands names pt) is (view pt)
  inRange : ∀ env pt, sc.At env pt → InRange t.shape (view pt)
  touches : ∀ env pt, sc.At env pt → ∀ name sub, t.Touches (view pt) name sub → Touch pt name sub

/-- The operands of a node with two of them are written at the indices that the node gives them. The
node itself may be a contraction, with names for the contracted indices. -/
theorem named_operands {Touch : List Int → String → List Int → Prop} {id : NodeId} {n : Node}
    {t₀ t₁ : Tree} {is con : List Index} {view conview : List Int → List Int} {K : ShapeClass}
    (hpoint : ∃ env pt, sc.At env pt) (htyped : (Tree.node id n [t₀, t₁]).Typed K.Admits S)
    (hleaf : n.kind.isLeaf = false) (hplain : ∀ t ∈ [t₀, t₁], Plain t)
    (hstands : ∀ env pt, sc.At env pt → List.Forall₂ (Stands names pt) is (view pt) ∧
      List.Forall₂ (Stands names pt) con (conview pt))
    (hin : ∀ env pt, sc.At env pt → InRange n.shape (view pt) ∧ (n.kind = .contraction →
      ∃ es, InRange es (conview pt) ∧ n.contractedExtents [t₀, t₁] = some es))
    (htouches : ∀ env pt, sc.At env pt → ∀ name sub,
      (Tree.node id n [t₀, t₁]).Touches (view pt) name sub → Touch pt name sub) :
    ∃ is₀ is₁ view₀ view₁, n.operandIndices ([t₀, t₁].map Tree.rank?) is con = some [is₀, is₁] ∧
      Named sc names S Touch t₀ is₀ view₀ ∧ Named sc names S Touch t₁ is₁ view₁ ∧
      ∀ env pt, sc.At env pt → n.operandIndices ([t₀, t₁].map Tree.rank?) (view pt) (conview pt) =
        some [view₀ pt, view₁ pt] := by
  let ops (pt : List Int) :=
    (n.operandIndices ([t₀, t₁].map Tree.rank?) (view pt) (conview pt)).getD []
  have hops : ∀ env pt, sc.At env pt →
      n.operandIndices ([t₀, t₁].map Tree.rank?) (view pt) (conview pt) = some (ops pt) ∧
      List.Forall₂ (fun t i => InRange t.shape i) [t₀, t₁] (ops pt) := by
    intro env pt hpt
    obtain ⟨l, hl, hrange⟩ := htyped.operandIndices hleaf (hin env pt hpt).1 (hin env pt hpt).2
    simp only [ops, hl]
    exact ⟨rfl, hrange⟩
  obtain ⟨env₀, pt₀, hpt₀⟩ := hpoint
  obtain ⟨isops, hisops, hrel₀⟩ := n.operandIndices_rel (hstands env₀ pt₀ hpt₀).1.flip
    (hstands env₀ pt₀ hpt₀).2.flip (hops env₀ pt₀ hpt₀).1
  have hlen : isops.length = 2 := hrel₀.length_eq.symm.trans (hops env₀ pt₀ hpt₀).2.length_eq.symm
  match isops, hlen with
  | [is₀, is₁], _ =>
    have hnamed : ∀ {k : Nat} {t : Tree} {is' : List Index} (view' : List Int → List Int),
        [t₀, t₁][k]? = some t → [is₀, is₁][k]? = some is' →
        (∀ pt v, (ops pt)[k]? = some v → view' pt = v) → Named sc names S Touch t is' view' := by
      intro k t is' view' ht his hview
      have hat : ∀ env pt, sc.At env pt → (ops pt)[k]? = some (view' pt) ∧
          List.Forall₂ (Stands names pt) is' (view' pt) ∧ InRange t.shape (view' pt) := by
        intro env pt hpt
        obtain ⟨l, hl, hrel⟩ := n.operandIndices_rel (hstands env pt hpt).1 (hstands env pt hpt).2 hisops
        rw [(hops env pt hpt).1] at hl
        cases hl
        obtain ⟨v, hv, hvstands⟩ := forall₂_getElem? hrel his
        obtain ⟨u, hu, hrange⟩ := forall₂_getElem? (hops env pt hpt).2 ht
        rw [hv] at hu
        cases hu
        rw [hview pt v hv]
        exact ⟨hv, hvstands, hrange⟩
      refine ⟨⟨K, ?_⟩, hplain t (List.mem_of_getElem? ht), fun env pt hpt => (hat env pt hpt).2.1,
        fun env pt hpt => (hat env pt hpt).2.2, fun env pt hpt name sub htouch => ?_⟩
      · cases htyped with
        | node _ _ hts => exact hts t (List.mem_of_getElem? ht)
      · exact htouches env pt hpt name sub (.operand hleaf (hin env pt hpt).2 (hops env pt hpt).1 ht
          (hat env pt hpt).1 htouch)
    refine ⟨is₀, is₁, fun pt => (ops pt)[0]?.getD [], fun pt => (ops pt)[1]?.getD [], hisops,
      hnamed (k := 0) _ rfl rfl fun pt v hv => by rw [hv]; rfl,
      hnamed (k := 1) _ rfl rfl fun pt v hv => by rw [hv]; rfl, fun env pt hpt => ?_⟩
    obtain ⟨hl, hrange⟩ := hops env pt hpt
    rw [hl, Option.some_inj]
    show ops pt = [(ops pt)[0]?.getD [], (ops pt)[1]?.getD []]
    generalize ops pt = l at hrange
    match l, hrange.length_eq with
    | [_, _], _ => rfl

namespace Named

variable {Touch : List Int → String → List Int → Prop} {id : NodeId} {n : Node} {ts : List Tree}
  {is : List Index} {view : List Int → List Int}

/-- What a node is like that code can be written for. -/
theorem kind_cases (h : Named sc names S Touch (.node id n ts) is view) :
    n.kind = .identifier ∨ n.kind = .constant ∨
      ∃ op t₀ t₁, n.kind.arith? = some op ∧ ts = [t₀, t₁] := by
  obtain ⟨K, htyped⟩ := h.typed
  obtain ⟨hcontraction, hstack, htransposition⟩ := h.plain n (by simp)
  cases htyped with
  | node _ hfits _ =>
    generalize hshapes : ts.map Tree.shape = shapes at hfits
    cases hfits with
    | identifier hk => exact .inl hk
    | constant hk => exact .inr (.inl hk)
    | elementwise hk | scalarMul hk | scalarDiv hk | product hk =>
      obtain ⟨t₀, t₁, rfl, -, -⟩ := Tree.map_eq_pair hshapes
      obtain ⟨op, hop⟩ := NodeKind.exists_arith (k := n.kind) (by simp [hk, NodeKind.isScalar])
      exact .inr (.inr ⟨op, t₀, t₁, hop, rfl⟩)
    | contraction hk => exact absurd hk hcontraction
    | stack hk => exact absurd hk hstack
    | transposition hk => exact absurd hk htransposition

theorem operands (hpoint : ∃ env pt, sc.At env pt)
    (h : Named sc names S Touch (.node id n ts) is view) :
    n.kind = .identifier ∨ n.kind = .constant ∨ ∃ op t₀ t₁ is₀ is₁ view₀ view₁,
      n.kind.arith? = some op ∧ ts = [t₀, t₁] ∧
      n.operandIndices (ts.map Tree.rank?) is [] = some [is₀, is₁] ∧
      Named sc names S Touch t₀ is₀ view₀ ∧ Named sc names S Touch t₁ is₁ view₁ ∧
      ∀ env pt, sc.At env pt →
        n.operandIndices (ts.map Tree.rank?) (view pt) [] = some [view₀ pt, view₁ pt] := by
  refine h.kind_cases.imp_right (Or.imp_right ?_)
  rintro ⟨op, t₀, t₁, hop, rfl⟩
  obtain ⟨K, htyped⟩ := h.typed
  have hcon : n.kind ≠ .contraction := (h.plain n (by simp)).1
  obtain ⟨is₀, is₁, view₀, view₁, hops, h₀, h₁, hviews⟩ := named_operands
    hpoint htyped (NodeKind.isLeaf_of_arith hop) (fun t ht m hm => h.plain m (by
      rw [Tree.labels_node, List.mem_cons, List.mem_flatMap]
      exact .inr ⟨t, ht, hm⟩)) (fun env pt hpt => ⟨h.stands env pt hpt, .nil⟩)
    (fun env pt hpt => ⟨h.inRange env pt hpt, fun hk => absurd hk hcon⟩) h.touches
  exact ⟨op, t₀, t₁, is₀, is₁, view₀, view₁, hop, rfl, hops, h₀, h₁, hviews⟩

end Named

/-- What is known of a point can be read there. -/
def Scene.Reads (sc : Scene α) (layout : Layout) (S : Shapes)
    (Touch : List Int → String → List Int → Prop) : Prop :=
  ∀ ⦃σ : Cells α⦄ ⦃env : Env⦄ ⦃A : Arrays α⦄ ⦃pt : List Int⦄ ⦃name : String⦄ ⦃stored : Shape⦄
    ⦃sub : List Int⦄, sc.Inv σ env A → sc.At env pt → Touch pt name sub → S name = some stored →
    InRange stored sub → Shape.count stored ≤ 0x80000000 ∧ Holds S A ∧
      cellsIn layout S A name sub = σ name sub

/-- The elements that an identifier reads have the values of the cells that the assignment started
from. -/
theorem Scene.Reads.values {Touch : List Int → String → List Int → Prop}
    (hreads : sc.Reads layout S Touch) {n : Node} {stored : Shape} (hS : S n.name = some stored)
    {view : List Int → List Int} (htouch : ∀ env pt s, sc.At env pt → n.subscript id (view pt) = some s →
      Touch pt n.name s) {o : Offset} {f : Locals α}
    (haddr : sc.Addresses layout o stored (fun pt => n.subscript id (view pt)) f) [Scalar α]
    (σ : Cells α) : sc.Values σ (.element ⟨n.name, o⟩) (fun pt => loadAt σ n (view pt)) f := by
  intro f' A pt hwithin hA hpt
  obtain ⟨s, hs, hin, heval⟩ := haddr f' pt hwithin hpt
  dsimp only at hs
  obtain ⟨hcount, hholds, hcell⟩ := hreads hA hpt (htouch _ pt s hpt hs) hS hin
  obtain ⟨v, hv⟩ := Option.isSome_iff_exists.mp (hholds.isSome hS hin)
  refine ⟨v, ?_, ?_⟩
  · rw [Expr.eval, hholds.load_eq hS hin (heval hcount), hv]
  · show loadAt σ n (view pt) = some v
    rw [loadAt, hs, Option.bind_eq_bind, Option.bind_some, ← hcell, hv]

/-- Trees are written at named indices. -/
def namedCoding [Scalar α] (hagrees : sc.Agrees names) (hpoint : ∃ env pt, sc.At env pt)
    {Touch : List Int → String → List Int → Prop} (hreads : sc.Reads layout S Touch)
    (hstored : ∀ name stored, S name = some stored → (p.find name).map (·.shape) = some stored) :
    Coding p layout sc where
  Good := Named sc names S Touch
  Ready := sc.Reachable names
  ready := Scene.Reachable.grows
  missing h := by
    obtain ⟨K, h⟩ := h.typed
    cases h
  operands h := h.operands hpoint
  read {id n ts is view w} h hk hw := by
    obtain ⟨K, htyped⟩ := h.typed
    obtain ⟨stored, hS, hviews⟩ := htyped.identifier hk
    obtain ⟨o, w', hrun, hemits, -⟩ := access_spec hagrees hpoint
      (hstored n.name stored hS) hviews (fun env pt hpt => ⟨h.stands env pt hpt, h.inRange env pt hpt⟩) hw
    exact ⟨_, w', hrun, hemits.mono fun σ f _ haddr => hreads.values hS
      (fun env pt s hpt hs => h.touches env pt hpt n.name s (.ident hk hs)) haddr σ⟩

end LoopNest.C
