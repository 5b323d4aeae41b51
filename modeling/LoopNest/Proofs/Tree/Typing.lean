import LoopNest.IR.Interpret
import LoopNest.Proofs.Index.Contraction

/-!
# Well-shaped expression trees

`Node.Fits` says that the shape of a node follows from the shapes of its operands and from the
stored shape of the tensor it reads, and `Tree.Typed` says so of every node of a tree. The value of
a tree at an index depends on the cells that it touches there (`Tree.eval_congr`), has a result when
these have contents (`Tree.eval_isSome`), and a well-shaped tree only touches cells in the range of
the stored shapes (`Tree.Touches.inRange`).
-/

namespace LoopNest

namespace NodeKind

variable {k : NodeKind}

theorem isElementwise_iff : k.isElementwise = true ↔ k = .add ∨ k = .sub ∨ k = .mul ∨ k = .div := by
  cases k <;> simp [isElementwise]

theorem exists_arith (h : k.isElementwise = true ∨ k.isScalar = true ∨ k = .product) :
    ∃ op, k.arith? = some op := by
  cases k
  case add | sub | mul | div | scalarMul | scalarDiv | product => exact ⟨_, rfl⟩
  all_goals simp [isElementwise, isScalar] at h

theorem isLeaf_of_elementwise (h : k.isElementwise = true) : k.isLeaf = false := by
  rcases isElementwise_iff.1 h with rfl | rfl | rfl | rfl <;> rfl

theorem isLeaf_of_arith {op : ArithOp} (h : k.arith? = some op) : k.isLeaf = false := by
  cases k
  case identifier | constant => cases h
  all_goals rfl

end NodeKind

namespace Tree

/-- Induction over trees, with the hypothesis for all operands. -/
@[elab_as_elim] theorem inductionOn {motive : Tree → Prop} (missing : motive .missing)
    (node : ∀ id n ts, (∀ t ∈ ts, motive t) → motive (.node id n ts)) (t : Tree) : motive t :=
  @Tree.rec motive (fun ts => ∀ t ∈ ts, motive t) missing (fun id n ts ih => node id n ts ih)
    (by simp) (fun t ts ht hts => by simpa using ⟨ht, hts⟩) t

/-- The shape of the result. -/
def shape : Tree → Shape
  | .missing => []
  | .node _ n _ => n.shape

/-- The number of the node at the root. -/
def root : Tree → NodeId
  | .missing => 0
  | .node id _ _ => id

/-- The kind of the node at the root. -/
def kind : Tree → NodeKind
  | .missing => .invalid
  | .node _ n _ => n.kind

@[simp] theorem shape_node (id : NodeId) (n : Node) (ts : List Tree) :
    (Tree.node id n ts).shape = n.shape := rfl

@[simp] theorem root_node (id : NodeId) (n : Node) (ts : List Tree) :
    (Tree.node id n ts).root = id := rfl

@[simp] theorem kind_node (id : NodeId) (n : Node) (ts : List Tree) :
    (Tree.node id n ts).kind = n.kind := rfl

end Tree

/-- The stored shapes of the tensors. -/
abbrev Shapes := String → Option Shape

/-- An identifier selects, by its fixed indices, a part of a stored tensor with swapped axes. -/
def Node.Views (n : Node) (stored : Shape) : Prop :=
  ∃ lead, forward n.perm stored = some (lead ++ n.shape) ∧ InRange lead n.fixed

/-- The shape of a node follows from those of its operands. -/
inductive Node.Fits (S : Shapes) (n : Node) : List Shape → Prop
  | identifier {stored : Shape} : n.kind = .identifier → S n.name = some stored →
    n.Views stored → Fits S n []
  | constant : n.kind = .constant → n.shape = [] → Fits S n []
  | elementwise : n.kind.isElementwise → Fits S n [n.shape, n.shape]
  | scalarMul : n.kind = .scalarMul → Fits S n [[], n.shape]
  | scalarDiv : n.kind = .scalarDiv → Fits S n [n.shape, []]
  | product {x y : Shape} : n.kind = .product → n.shape = x ++ y → Fits S n [x, y]
  | contraction {x y : Shape} {es : List Int} : n.kind = .contraction →
    n.lhsAxes.mapM (at? x) = some es → n.rhsAxes.mapM (at? y) = some es →
    n.shape = x.remove n.lhsAxes ++ y.remove n.rhsAxes → Fits S n [x, y]
  | stack {s : Shape} {ops : List Shape} : n.kind = .stack →
    n.operands.length = (s :: ops).length → n.shape = ((s :: ops).length : Int) :: s →
    (∀ o ∈ ops, o = s) → Fits S n (s :: ops)
  | transposition {x : Shape} : n.kind = .transposition → forward n.pairs x = some n.shape →
    Fits S n [x]

/-- Every node of a tree fits its operands and belongs to a class of nodes. -/
inductive Tree.Typed (C : Node → Prop) (S : Shapes) : Tree → Prop
  | node {id : NodeId} {n : Node} {ts : List Tree} : C n → n.Fits S (ts.map Tree.shape) →
    (∀ t ∈ ts, t.Typed C S) → Tree.Typed C S (.node id n ts)

namespace Node

/-- Two nodes that differ in the numbers of their operands only. -/
def Alike (n n' : Node) : Prop := n' = { n with operands := n'.operands }

theorem Alike.refl (n : Node) : n.Alike n := rfl

theorem Alike.trans {n n' n'' : Node} (h : n.Alike n') (h' : n'.Alike n'') : n.Alike n'' := by
  rw [Alike] at *
  rw [h', h]

theorem alike_operands (n : Node) (ops : List NodeId) : n.Alike { n with operands := ops } := rfl

namespace Alike

variable {n n' : Node}

theorem kind (h : n.Alike n') : n.kind = n'.kind := by rw [h]

theorem shape (h : n.Alike n') : n.shape = n'.shape := by rw [h]

theorem lhsAxes (h : n.Alike n') : n.lhsAxes = n'.lhsAxes := by rw [h]

theorem pairs (h : n.Alike n') : n.pairs = n'.pairs := by rw [h]

theorem operandIndices (h : n.Alike n') {ranks : List (Option Nat)} {res con : List τ}
    (hk : n.kind ≠ .stack) :
    n.operandIndices ranks res con = n'.operandIndices ranks res con := by
  rw [h]
  unfold Node.operandIndices
  cases hkind : n.kind <;> simp_all

end Alike

theorem operandIndices_elementwise {n : Node} (h : n.kind.isElementwise = true)
    (ranks : List (Option Nat)) (idx con : List τ) :
    n.operandIndices ranks idx con = some [idx, idx] := by
  rcases NodeKind.isElementwise_iff.1 h with hk | hk | hk | hk <;> simp [operandIndices, hk]

theorem operandIndices_of_ne_contraction {n : Node} (h : n.kind ≠ .contraction)
    (ranks : List (Option Nat)) (res con con' : List τ) :
    n.operandIndices ranks res con = n.operandIndices ranks res con' := by
  unfold operandIndices
  cases hk : n.kind <;> simp_all

/-- The operand indices computed from the shape of a node are the shapes of its operands. -/
theorem Fits.operandIndices_shape {S : Shapes} {n : Node} {shapes : List Shape}
    (h : n.Fits S shapes) (hleaf : n.kind.isLeaf = false) {es : List Int}
    (hes : n.kind = .contraction → ∀ x ∈ shapes.head?, n.lhsAxes.mapM (at? x) = some es) :
    n.operandIndices (shapes.map fun s => some s.rank) n.shape es = some shapes := by
  cases h with
  | identifier hk | constant hk => simp [hk, NodeKind.isLeaf] at hleaf
  | elementwise hk => exact operandIndices_elementwise hk _ _ _
  | scalarMul hk | scalarDiv hk => simp [operandIndices, hk]
  | product hk hshape => simp [operandIndices, hk, hshape]
  | @contraction x y es' hk hx hy hshape =>
    have hes' := hes hk x (by simp)
    rw [hx] at hes'
    cases hes'
    have h₁ := interleave_remove hx (y.remove n.rhsAxes)
    have h₂ := interleave_remove hy []
    rw [List.append_nil] at h₂
    simp [operandIndices, hk, hshape, h₁, h₂]
  | @stack s ops hk hlen hshape hops =>
    have hrep : n.operands.map (fun _ => s) = s :: ops := by
      rw [List.map_const', hlen]
      refine (List.eq_replicate_iff.mpr ⟨rfl, fun o ho => ?_⟩).symm
      rcases List.mem_cons.mp ho with rfl | ho
      · rfl
      · exact hops o ho
    cases hn : n.operands with
    | nil => simp [hn] at hlen
    | cons op rest => simp [operandIndices, hk, hn, hshape, ← hrep]
  | transposition hk hx => simp [operandIndices, hk, backward_eq_some_of_forward hx]

/-- An index in range leads to operand indices in range. -/
theorem Fits.operandIndices_inRange {S : Shapes} {n : Node} {shapes : List Shape}
    (h : n.Fits S shapes) (hleaf : n.kind.isLeaf = false) {idx con : List Int}
    (hidx : InRange n.shape idx) (hcon : n.kind = .contraction → ∃ es, InRange es con ∧
      ∀ x ∈ shapes.head?, n.lhsAxes.mapM (at? x) = some es) :
    ∃ ops, n.operandIndices (shapes.map fun s => some s.rank) idx con = some ops ∧
      List.Forall₂ InRange shapes ops := by
  by_cases hk : n.kind = .contraction
  · obtain ⟨es, hes, hx⟩ := hcon hk
    obtain ⟨ops, h₁, h₂⟩ := operandIndices_rel (inRange_iff_forall₂.mp hidx)
      (inRange_iff_forall₂.mp hes) (h.operandIndices_shape hleaf fun _ => hx)
    exact ⟨ops, h₁, h₂.imp fun _ _ => inRange_iff_forall₂.mpr⟩
  · obtain ⟨ops, h₁, h₂⟩ := operandIndices_rel (inRange_iff_forall₂.mp hidx)
      List.Forall₂.nil (h.operandIndices_shape hleaf fun h => absurd h hk)
    rw [operandIndices_of_ne_contraction hk _ _ _ con] at h₁
    exact ⟨ops, h₁, h₂.imp fun _ _ => inRange_iff_forall₂.mpr⟩

/-- The subscript of an identifier, for an index in range of its own shape, is in range of the
stored one. -/
theorem Views.subscript_inRange {n : Node} {stored : Shape} (h : n.Views stored)
    {idx : List Int} (hidx : InRange n.shape idx) :
    ∃ sub, n.subscript id idx = some sub ∧ InRange stored sub := by
  obtain ⟨lead, hfwd, hlead⟩ := h
  have hback := backward_eq_some_of_forward hfwd
  have := (hlead.append hidx).backward hback
  simpa [subscript] using this

/-- The extents of an identifier are extents of its tensor. -/
theorem Views.mem_stored {n : Node} {stored : Shape} (h : n.Views stored) {d : Int}
    (hd : d ∈ n.shape) : d ∈ stored := by
  obtain ⟨lead, hfwd, -⟩ := h
  exact (perm_forward hfwd).mem_iff.mp (List.mem_append_right _ hd)

theorem Views.fixed_nonneg {n : Node} {stored : Shape} (h : n.Views stored) : ∀ k ∈ n.fixed, 0 ≤ k := by
  obtain ⟨lead, -, hlead⟩ := h
  intro k hk
  obtain ⟨j, hj⟩ := List.mem_iff_getElem?.mp hk
  obtain ⟨d, -, lo, -⟩ := forall₂_getElem? (inRange_iff_forall₂.mp hlead).flip hj
  exact lo

/-- The extents of a tensor are positive when those of a part of it are. -/
theorem Views.pos {n : Node} {stored : Shape} (h : n.Views stored) (hpos : ∀ d ∈ n.shape, 0 < d) :
    ∀ d ∈ stored, 0 < d := by
  obtain ⟨lead, hfwd, hlead⟩ := h
  intro d hd
  rw [← (perm_forward hfwd).mem_iff, List.mem_append] at hd
  exact hd.elim (hlead.pos d) (hpos d)

end Node

namespace Tree

variable {α : Type} [Scalar α] {C : Node → Prop} {S : Shapes}

theorem Typed.rank? {t : Tree} (h : t.Typed C S) : t.rank? = some t.shape.rank := by
  cases h
  rfl

theorem Typed.operands_eq_nil {id : NodeId} {n : Node} {ts : List Tree}
    (h : (Tree.node id n ts).Typed C S) (hkind : n.kind = .identifier) : ts = [] := by
  cases h with
  | node _ hfit _ =>
    generalize hshapes : ts.map Tree.shape = shapes at hfit
    cases hfit with
    | identifier => exact List.map_eq_nil_iff.mp hshapes
    | constant => exact List.map_eq_nil_iff.mp hshapes
    | _ => simp_all [NodeKind.isElementwise]

/-- An identifier selects a part of a declared tensor. -/
theorem Typed.identifier {id : NodeId} {n : Node} {ts : List Tree} (h : (Tree.node id n ts).Typed C S)
    (hkind : n.kind = .identifier) : ∃ stored, S n.name = some stored ∧ n.Views stored := by
  cases h with
  | node _ hfits _ =>
    generalize ts.map Tree.shape = shapes at hfits
    cases hfits with
    | identifier _ hS hviews => exact ⟨_, hS, hviews⟩
    | elementwise hk => simp [hkind, NodeKind.isElementwise] at hk
    | constant hk | scalarMul hk | scalarDiv hk | product hk | contraction hk | stack hk
    | transposition hk => rw [hkind] at hk; cases hk

theorem Typed.exists_node {t : Tree} (h : t.Typed C S) : ∃ id n ts, t = .node id n ts := by
  cases h with
  | node => exact ⟨_, _, _, rfl⟩

theorem Typed.map_rank? {ts : List Tree} (h : ∀ t ∈ ts, t.Typed C S) :
    ts.map Tree.rank? = (ts.map Tree.shape).map fun s => some s.rank := by
  rw [List.map_map]
  exact List.map_congr_left fun t ht => (h t ht).rank?

theorem evalAll_eq_map (cells : Cells α) (ts : List Tree) :
    evalAll cells ts = ts.map (Tree.eval cells) := by
  induction ts with
  | nil => rfl
  | cons t ts ih => rw [evalAll, ih, List.map_cons]

theorem eval_node (cells : Cells α) (id : NodeId) (n : Node) (ts : List Tree) (idx : List Int) :
    (Tree.node id n ts).eval cells idx = n.evalWith cells ts (ts.map (Tree.eval cells)) idx := by
  rw [eval, evalAll_eq_map]

/-- The cells that the value of a tree at an index may depend on. -/
inductive Touches : Tree → List Int → String → List Int → Prop
  | ident {i : NodeId} {n : Node} {ts : List Tree} {idx sub : List Int} : n.kind = .identifier →
    n.subscript id idx = some sub → Touches (.node i n ts) idx n.name sub
  | operand {i : NodeId} {n : Node} {ts : List Tree} {idx con : List Int} {ops : List (List Int)}
    {j : Nat} {t : Tree} {idx' : List Int} {name : String} {sub : List Int} :
    n.kind.isLeaf = false →
    (n.kind = .contraction → ∃ es, InRange es con ∧ n.contractedExtents ts = some es) →
    n.operandIndices (ts.map Tree.rank?) idx con = some ops → ts[j]? = some t →
    ops[j]? = some idx' → Touches t idx' name sub → Touches (.node i n ts) idx name sub

/-- The operands of a well-shaped node are indexed in range. -/
theorem Typed.operandIndices {id : NodeId} {n : Node} {ts : List Tree}
    (h : (Tree.node id n ts).Typed C S) (hleaf : n.kind.isLeaf = false) {idx con : List Int}
    (hidx : InRange n.shape idx)
    (hcon : n.kind = .contraction → ∃ es, InRange es con ∧ n.contractedExtents ts = some es) :
    ∃ ops, n.operandIndices (ts.map Tree.rank?) idx con = some ops ∧
      List.Forall₂ (fun t i => InRange t.shape i) ts ops := by
  cases h with
  | node _ hfits hts =>
    obtain ⟨ops, h₁, h₂⟩ := hfits.operandIndices_inRange hleaf hidx fun hk => by
      obtain ⟨es, hes, hext⟩ := hcon hk
      refine ⟨es, hes, fun x hx => ?_⟩
      cases ts with
      | nil => simp at hx
      | cons t ts =>
        cases hts t (.head _)
        simp only [List.map_cons, List.head?_cons, Option.mem_some_iff, shape_node] at hx
        subst hx
        simpa [Node.contractedExtents, label?] using hext
    rw [Typed.map_rank? hts]
    exact ⟨ops, h₁, List.forall₂_map_left_iff.mp h₂⟩

theorem Typed.operandIndices_pair {id : NodeId} {n : Node} {t₀ t₁ : Tree}
    (h : (Tree.node id n [t₀, t₁]).Typed C S) (hleaf : n.kind.isLeaf = false) {idx con : List Int}
    (hidx : InRange n.shape idx)
    (hcon : n.kind = .contraction → ∃ es, InRange es con ∧
      n.contractedExtents [t₀, t₁] = some es) :
    ∃ i₀ i₁, n.operandIndices ([t₀, t₁].map Tree.rank?) idx con = some [i₀, i₁] := by
  obtain ⟨ops, h₁, h₂⟩ := h.operandIndices hleaf hidx hcon
  cases h₂ with
  | cons _ h₂ =>
    cases h₂ with
    | cons _ h₂ =>
      cases h₂
      exact ⟨_, _, h₁⟩

theorem contractedExtents_eq {n : Node} {t : Tree} {ts : List Tree} (h : t.Typed C S) :
    n.contractedExtents (t :: ts) = n.lhsAxes.mapM (at? t.shape) := by
  cases h
  rfl

/-- The contracted extents of a well-shaped contraction are extents of an operand. -/
theorem Typed.contractedExtents {P : Int → Prop} {id : NodeId} {n : Node} {ts : List Tree}
    (h : (Tree.node id n ts).Typed C S) (hP : ∀ n, C n → ∀ d ∈ n.shape, P d)
    (hk : n.kind = .contraction) : ∃ es, n.contractedExtents ts = some es ∧ ∀ d ∈ es, P d := by
  cases h with
  | node _ hfits hts =>
    generalize hshapes : ts.map Tree.shape = shapes at hfits
    cases hfits with
    | @contraction x y es _ hx hy _ =>
      cases ts with
      | nil => simp at hshapes
      | cons t ts =>
        simp only [List.map_cons, List.cons.injEq] at hshapes
        cases hts t (.head _) with
        | @node _ m _ hC _ _ =>
          obtain ⟨rfl, _⟩ := hshapes
          exact ⟨es, by simpa [Node.contractedExtents, label?] using hx, fun d hd =>
            hP m hC d (mem_of_mapM_at? hx hd)⟩
    | _ => simp_all [NodeKind.isElementwise]

/-- Every touched cell is a cell of a tensor that the tree reads, in the range of its shape. -/
theorem Touches.inRange {t : Tree} {idx : List Int} {name : String} {sub : List Int}
    (h : t.Touches idx name sub) (ht : t.Typed C S) (hidx : InRange t.shape idx) :
    ∃ stored, S name = some stored ∧ InRange stored sub := by
  induction h with
  | ident hk hsub =>
    cases ht with
    | node _ hfits _ =>
      generalize List.map Tree.shape _ = shapes at hfits
      cases hfits with
      | identifier _ hS hv =>
        obtain ⟨sub', h₁, h₂⟩ := hv.subscript_inRange hidx
        rw [hsub] at h₁
        cases h₁
        exact ⟨_, hS, h₂⟩
      | _ => simp_all [NodeKind.isElementwise]
  | operand hleaf hcon hops hj ho _ ih =>
    obtain ⟨ops, h₁, h₂⟩ := ht.operandIndices hleaf hidx hcon
    rw [hops] at h₁
    cases h₁
    obtain ⟨i', hi', hr⟩ := forall₂_getElem? h₂ hj
    rw [ho] at hi'
    cases hi'
    cases ht with
    | node _ _ hts => exact ih (hts _ (List.mem_of_getElem? hj)) hr

/-! ## Values -/

theorem map_eq_pair {β γ : Type _} {f : β → γ} {l : List β} {x y : γ} (h : l.map f = [x, y]) :
    ∃ a b, l = [a, b] ∧ f a = x ∧ f b = y := by
  match l, h with
  | [a, b], h =>
    simp only [List.map_cons, List.map_nil, List.cons.injEq, and_true] at h
    exact ⟨a, b, rfl, h⟩

theorem map_eq_single {β γ : Type _} {f : β → γ} {l : List β} {x : γ} (h : l.map f = [x]) :
    ∃ a, l = [a] ∧ f a = x := by
  match l, h with
  | [a], h =>
    simp only [List.map_cons, List.map_nil, List.cons.injEq, and_true] at h
    exact ⟨a, rfl, h⟩

theorem eval_ident {cells : Cells α} {id : NodeId} {n : Node} {ts : List Tree} {idx : List Int}
    (hk : n.kind = .identifier) : (Tree.node id n ts).eval cells idx = loadAt cells n idx := by
  simp only [eval_node, Node.evalWith, hk]

theorem eval_constant {cells : Cells α} {id : NodeId} {n : Node} {ts : List Tree}
    {idx : List Int} (hk : n.kind = .constant) :
    (Tree.node id n ts).eval cells idx = some (Scalar.literal n.value) := by
  simp only [eval_node, Node.evalWith, hk]

theorem eval_arith {cells : Cells α} {id : NodeId} {n : Node} {t₀ t₁ : Tree}
    {idx i₀ i₁ : List Int} {op : ArithOp} (hop : n.kind.arith? = some op)
    (h : n.operandIndices ([t₀, t₁].map Tree.rank?) idx [] = some [i₀, i₁]) :
    (Tree.node id n [t₀, t₁]).eval cells idx =
      (t₀.eval cells i₀).bind fun x => (t₁.eval cells i₁).bind fun y => some (op.eval x y) := by
  rw [eval_node]
  unfold Node.evalWith
  cases hk : n.kind <;> simp_all [NodeKind.arith?]

theorem termWith_eq {cells : Cells α} {n : Node} {t₀ t₁ : Tree} {idx k i₀ i₁ : List Int}
    (h : n.operandIndices ([t₀, t₁].map Tree.rank?) idx k = some [i₀, i₁]) :
    n.termWith [t₀, t₁] ([t₀, t₁].map (Tree.eval cells)) idx k =
      (t₀.eval cells i₀).bind fun x => (t₁.eval cells i₁).bind fun y => some (x * y) := by
  unfold Node.termWith
  rw [h]
  rfl

theorem eval_contraction {cells : Cells α} {id : NodeId} {n : Node} {ts : List Tree}
    {idx es : List Int} (hk : n.kind = .contraction) (hes : n.contractedExtents ts = some es)
    (hnonneg : ∀ d ∈ es, 0 ≤ d) :
    (Tree.node id n ts).eval cells idx = (indices es).foldlM (fun sum k =>
      (n.termWith ts (ts.map (Tree.eval cells)) idx k).bind fun v => some (sum + v)) 0 := by
  simp only [eval_node, Node.evalWith, hk, hes, Option.bind_eq_bind, Option.bind_some,
    forEach_eq_foldlM hnonneg, Option.pure_def]

/-- A stack leads to the rest of its index in the member that is first in it. -/
theorem operandIndices_stack {n : Node} {i : Int} (hk : n.kind = .stack) (lo : 0 ≤ i)
    (hi : i < n.operands.length) (ranks : List (Option Nat)) (rest : List Int) :
    ∃ ops, n.operandIndices ranks (i :: rest) [] = some ops ∧ ops[i.toNat]? = some rest := by
  refine ⟨n.operands.map fun _ => rest, ?_, ?_⟩
  · cases hops : n.operands with
    | nil =>
      rw [hops, List.length_nil] at hi
      omega
    | cons => simp [Node.operandIndices, hk, hops]
  · rw [List.getElem?_map, List.getElem?_eq_getElem (by omega)]
    rfl

theorem eval_stack {cells : Cells α} {id : NodeId} {n : Node} {ts : List Tree} {i : Int}
    {idx : List Int} {t : Tree} (hk : n.kind = .stack) (ht : at? ts i = some t) :
    (Tree.node id n ts).eval cells (i :: idx) = t.eval cells idx := by
  have hmap : at? (ts.map (Tree.eval cells)) i = some (t.eval cells) := by
    obtain ⟨h₀, h₁⟩ := at?_eq_some_iff.mp ht
    exact at?_eq_some_iff.mpr ⟨h₀, by simp [h₁]⟩
  simp [eval_node, Node.evalWith, hk, hmap]

theorem eval_transposition {cells : Cells α} {id : NodeId} {n : Node} {t : Tree}
    {idx idx' : List Int} (hk : n.kind = .transposition) (h : backward n.pairs idx = some idx') :
    (Tree.node id n [t]).eval cells idx = t.eval cells idx' := by
  simp [eval_node, Node.evalWith, hk, h]

theorem foldlM_congr {β γ : Type _} {l : List β} {f g : γ → β → Option γ}
    (h : ∀ s, ∀ x ∈ l, f s x = g s x) (s : γ) : l.foldlM f s = l.foldlM g s := by
  induction l generalizing s with
  | nil => rfl
  | cons x l ih =>
    rw [List.foldlM_cons, List.foldlM_cons, h s x (.head _)]
    exact bind_congr fun s' => ih (fun s y hy => h s y (List.mem_cons_of_mem _ hy)) s'

/-- The value of a well-shaped node is determined by the values of its operands at the indices that
its own index leads to. The operands may be other trees of the same shapes. -/
theorem eval_congr_operands {cells cells' : Cells α} {id id' : NodeId} {n n' : Node}
    {ts ts' : List Tree} {idx : List Int} {S' : Shapes}
    (hnonneg : ∀ n, C n → ∀ d ∈ n.shape, 0 ≤ d) (hn : n.Alike n')
    (ht : (Tree.node id n ts).Typed C S) (ht' : (Tree.node id' n' ts').Typed C S')
    (hleaf : n.kind.isLeaf = false) (hidx : InRange n.shape idx)
    (hshape : ts'.map Tree.shape = ts.map Tree.shape)
    (heq : ∀ (con : List Int) (ops : List (List Int)) (j : Nat) (t t' : Tree) (i : List Int),
      (n.kind = .contraction → ∃ es, InRange es con ∧ n.contractedExtents ts = some es) →
      n.operandIndices (ts.map Tree.rank?) idx con = some ops → ts[j]? = some t →
      ts'[j]? = some t' → ops[j]? = some i → t.eval cells i = t'.eval cells' i) :
    (Tree.node id n ts).eval cells idx = (Tree.node id' n' ts').eval cells' idx := by
  have hts : ∀ t ∈ ts, t.Typed C S := by cases ht; assumption
  have hts' : ∀ t ∈ ts', t.Typed C S' := by cases ht'; assumption
  have hranks : ts'.map Tree.rank? = ts.map Tree.rank? := by
    rw [Typed.map_rank? hts, Typed.map_rank? hts', hshape]
  have hidx' (con : List Int) (hk : n.kind ≠ .stack) :
      n'.operandIndices (ts'.map Tree.rank?) idx con =
        n.operandIndices (ts.map Tree.rank?) idx con := by
    rw [hranks]
    exact (hn.operandIndices hk).symm
  have hfits : n.Fits S (ts.map Tree.shape) := by cases ht; assumption
  generalize hshapes : ts.map Tree.shape = shapes at hfits hshape
  cases hfits with
  | identifier hk | constant hk => simp [hk, NodeKind.isLeaf] at hleaf
  | elementwise hk | scalarMul hk | scalarDiv hk | product hk =>
    obtain ⟨t₀, t₁, rfl, -, -⟩ := map_eq_pair hshapes
    obtain ⟨t₀', t₁', rfl, -, -⟩ := map_eq_pair hshape
    obtain ⟨op, hop⟩ := NodeKind.exists_arith (k := n.kind) (by simp [hk, NodeKind.isScalar])
    have hnc : n.kind ≠ .contraction ∧ n.kind ≠ .stack := by
      constructor <;> intro h <;> simp [h, NodeKind.arith?] at hop
    have hcon : n.kind = .contraction → ∃ es, InRange es [] ∧
        n.contractedExtents [t₀, t₁] = some es := fun h => absurd h hnc.1
    obtain ⟨i₀, i₁, h₁⟩ := ht.operandIndices_pair hleaf hidx hcon
    have he₀ := heq [] _ 0 t₀ t₀' i₀ hcon h₁ rfl rfl rfl
    have he₁ := heq [] _ 1 t₁ t₁' i₁ hcon h₁ rfl rfl rfl
    rw [eval_arith hop h₁, eval_arith (hn.kind ▸ hop) ((hidx' [] hnc.2).trans h₁), he₀, he₁]
  | contraction hk =>
    obtain ⟨t₀, t₁, rfl, hs₀, -⟩ := map_eq_pair hshapes
    obtain ⟨t₀', t₁', rfl, hs₀', -⟩ := map_eq_pair hshape
    obtain ⟨es, hes, hesn⟩ := ht.contractedExtents hnonneg hk
    have hes' : n'.contractedExtents [t₀', t₁'] = some es := by
      rw [← hes, contractedExtents_eq (hts t₀ (.head _)), contractedExtents_eq (hts' t₀' (.head _)),
        hs₀, hs₀', hn.lhsAxes]
    rw [eval_contraction hk hes hesn, eval_contraction (hn.kind ▸ hk) hes' hesn]
    refine foldlM_congr (fun sum k hmem => ?_) 0
    have hcon : n.kind = .contraction → ∃ es, InRange es k ∧
        n.contractedExtents [t₀, t₁] = some es := fun _ => ⟨es, mem_indices.mp hmem, hes⟩
    obtain ⟨i₀, i₁, h₁⟩ := ht.operandIndices_pair hleaf hidx hcon
    have he₀ := heq k _ 0 t₀ t₀' i₀ hcon h₁ rfl rfl rfl
    have he₁ := heq k _ 1 t₁ t₁' i₁ hcon h₁ rfl rfl rfl
    rw [termWith_eq h₁, termWith_eq ((hidx' k (by simp [hk])).trans h₁), he₀, he₁]
  | @stack s ops hk hlen hsh hops =>
    rw [hsh] at hidx
    cases hidx with
    | @cons i _ _ rest lo hi _ =>
      have hlts : ts.length = (s :: ops).length := by rw [← hshapes, List.length_map]
      have hlts' : ts'.length = (s :: ops).length := by rw [← hshape, List.length_map]
      obtain ⟨t, hti⟩ := at?_eq_getElem (l := ts) lo (by rw [hlts]; exact hi)
      obtain ⟨t', hti'⟩ := at?_eq_getElem (l := ts') lo (by rw [hlts']; exact hi)
      rw [eval_stack hk hti, eval_stack (hn.kind ▸ hk) hti']
      obtain ⟨idxs, h₁, hrest⟩ := operandIndices_stack hk lo (hlen ▸ hi) (ts.map Tree.rank?) rest
      exact heq [] idxs i.toNat t t' rest (by simp [hk]) h₁ (at?_eq_some_iff.mp hti).2
        (at?_eq_some_iff.mp hti').2 hrest
  | transposition hk hx =>
    obtain ⟨t, rfl, -⟩ := map_eq_single hshapes
    obtain ⟨t', rfl, -⟩ := map_eq_single hshape
    obtain ⟨idx', h₁, _⟩ := hidx.backward (backward_eq_some_of_forward hx)
    rw [eval_transposition hk h₁, eval_transposition (hn.kind ▸ hk) (hn.pairs ▸ h₁)]
    exact heq [] [idx'] 0 t t' idx' (by simp [hk]) (by simp [Node.operandIndices, hk, h₁])
      rfl rfl rfl

/-- The value of a well-shaped tree only depends on the cells that it touches. -/
theorem eval_congr {cells cells' : Cells α} {t : Tree} {idx : List Int}
    (hnonneg : ∀ n, C n → ∀ d ∈ n.shape, 0 ≤ d) (ht : t.Typed C S) (hidx : InRange t.shape idx)
    (heq : ∀ name sub, t.Touches idx name sub → cells name sub = cells' name sub) :
    t.eval cells idx = t.eval cells' idx := by
  induction ht generalizing idx with
  | @node nid n ts hC hfits hts ih =>
    have htyped : (Tree.node nid n ts).Typed C S := .node hC hfits hts
    cases hleaf : n.kind.isLeaf with
    | false =>
      refine eval_congr_operands hnonneg (.refl n) htyped htyped hleaf hidx rfl ?_
      intro con ops j t t' i hcon hops hj hj' hi
      rw [hj] at hj'
      cases hj'
      have hmem := List.mem_of_getElem? hj
      obtain ⟨ops', h₁, h₂⟩ := htyped.operandIndices hleaf hidx hcon
      rw [hops] at h₁
      cases h₁
      obtain ⟨i', hi', hr⟩ := forall₂_getElem? h₂ hj
      rw [hi] at hi'
      cases hi'
      exact ih t hmem hr fun name sub htouch =>
        heq name sub (.operand hleaf hcon hops hj hi htouch)
    | true =>
      cases hk : n.kind <;> simp only [hk, NodeKind.isLeaf, Bool.false_eq_true] at hleaf
      · rw [eval_ident hk, eval_ident hk]
        unfold loadAt
        cases hsub : n.subscript id idx with
        | none => rfl
        | some sub => exact heq _ _ (.ident hk hsub)
      · rw [eval_constant hk, eval_constant hk]

/-- A contraction has two operands. -/
theorem Typed.exists_pair {id : NodeId} {n : Node} {ts : List Tree}
    (h : (Tree.node id n ts).Typed C S) (hk : n.kind = .contraction) : ∃ t₀ t₁, ts = [t₀, t₁] := by
  cases h with
  | node _ hfits _ =>
    generalize hshapes : ts.map Tree.shape = shapes at hfits
    cases hfits with
    | contraction =>
      obtain ⟨t₀, t₁, rfl, -, -⟩ := map_eq_pair hshapes
      exact ⟨t₀, t₁, rfl⟩
    | _ => simp_all [NodeKind.isElementwise]

/-- The products that a contraction adds only depend on the cells that it touches. -/
theorem Typed.termWith_congr {cells cells' : Cells α} {id : NodeId} {n : Node} {ts : List Tree}
    {idx k es : List Int} (h : (Tree.node id n ts).Typed C S)
    (hnonneg : ∀ n, C n → ∀ d ∈ n.shape, 0 ≤ d) (hk : n.kind = .contraction)
    (hes : n.contractedExtents ts = some es) (hidx : InRange n.shape idx) (hcon : InRange es k)
    (heq : ∀ name sub, (Tree.node id n ts).Touches idx name sub → cells name sub = cells' name sub) :
    n.termWith ts (ts.map (Tree.eval cells)) idx k =
      n.termWith ts (ts.map (Tree.eval cells')) idx k := by
  obtain ⟨t₀, t₁, rfl⟩ := h.exists_pair hk
  have hleaf : n.kind.isLeaf = false := by rw [hk]; rfl
  have hcon' : n.kind = .contraction → ∃ es, InRange es k ∧ n.contractedExtents [t₀, t₁] = some es :=
    fun _ => ⟨es, hcon, hes⟩
  obtain ⟨ops, hops, hin⟩ := h.operandIndices hleaf hidx hcon'
  obtain ⟨i₀, i₁, hpair⟩ := h.operandIndices_pair hleaf hidx hcon'
  rw [hops] at hpair
  cases hpair
  obtain ⟨hin₀, hin₁⟩ : InRange t₀.shape i₀ ∧ InRange t₁.shape i₁ := by simpa using hin
  cases h with
  | node _ _ hts =>
    rw [termWith_eq hops, termWith_eq hops,
      eval_congr hnonneg (hts t₀ (by simp)) hin₀ fun name sub htouch =>
        heq name sub (.operand (j := 0) hleaf hcon' hops rfl rfl htouch),
      eval_congr hnonneg (hts t₁ (by simp)) hin₁ fun name sub htouch =>
        heq name sub (.operand (j := 1) hleaf hcon' hops rfl rfl htouch)]

theorem foldlM_isSome {β γ : Type _} {l : List β} {f : γ → β → Option γ}
    (h : ∀ s, ∀ x ∈ l, (f s x).isSome) (s : γ) : (l.foldlM f s).isSome := by
  induction l generalizing s with
  | nil => rfl
  | cons x l ih =>
    rw [List.foldlM_cons]
    obtain ⟨s', hs'⟩ := Option.isSome_iff_exists.mp (h s x (.head _))
    rw [hs']
    exact ih (fun s y hy => h s y (List.mem_cons_of_mem _ hy)) s'

/-- A well-shaped tree has a value at every index where the cells that it touches have contents. -/
theorem eval_isSome {cells : Cells α} {t : Tree} {idx : List Int}
    (hnonneg : ∀ n, C n → ∀ d ∈ n.shape, 0 ≤ d) (ht : t.Typed C S) (hidx : InRange t.shape idx)
    (hdef : ∀ name sub, t.Touches idx name sub → (cells name sub).isSome) :
    (t.eval cells idx).isSome := by
  induction ht generalizing idx with
  | @node id n ts hC hfits hts ih =>
    have htyped : (Tree.node id n ts).Typed C S := .node hC hfits hts
    -- the operands have values at all indices that the index of the node leads to
    have hop : ∀ (con : List Int) (ops : List (List Int)) (j : Nat) (t : Tree) (i : List Int),
        n.kind.isLeaf = false →
        (n.kind = .contraction → ∃ es, InRange es con ∧ n.contractedExtents ts = some es) →
        n.operandIndices (ts.map Tree.rank?) idx con = some ops → ts[j]? = some t →
        ops[j]? = some i → (t.eval cells i).isSome := by
      intro con ops j t i hleaf hcon hops hj hi
      obtain ⟨ops', h₁, h₂⟩ := htyped.operandIndices hleaf hidx hcon
      rw [hops] at h₁
      cases h₁
      obtain ⟨i', hi', hr⟩ := forall₂_getElem? h₂ hj
      rw [hi] at hi'
      cases hi'
      exact ih t (List.mem_of_getElem? hj) hr fun name sub htouch =>
        hdef name sub (.operand hleaf hcon hops hj hi htouch)
    generalize hshapes : ts.map Tree.shape = shapes at hfits
    cases hfits with
    | identifier hk hS hv =>
      obtain ⟨sub, h₁, _⟩ := hv.subscript_inRange hidx
      rw [eval_ident hk, loadAt, h₁]
      exact hdef _ _ (.ident hk h₁)
    | constant hk =>
      rw [eval_constant hk]
      rfl
    | elementwise hk | scalarMul hk | scalarDiv hk | product hk =>
      obtain ⟨t₀, t₁, rfl, -, -⟩ := map_eq_pair hshapes
      obtain ⟨op, hop'⟩ := NodeKind.exists_arith (k := n.kind) (by simp [hk, NodeKind.isScalar])
      have hleaf := NodeKind.isLeaf_of_arith hop'
      have hcon : n.kind = .contraction → ∃ es, InRange es [] ∧
          n.contractedExtents [t₀, t₁] = some es := fun h => by simp [h, NodeKind.arith?] at hop'
      obtain ⟨i₀, i₁, h₁⟩ := htyped.operandIndices_pair hleaf hidx hcon
      obtain ⟨x, hx⟩ := Option.isSome_iff_exists.mp (hop [] _ 0 t₀ i₀ hleaf hcon h₁ rfl rfl)
      obtain ⟨y, hy⟩ := Option.isSome_iff_exists.mp (hop [] _ 1 t₁ i₁ hleaf hcon h₁ rfl rfl)
      rw [eval_arith hop' h₁, hx, hy]
      rfl
    | contraction hk =>
      obtain ⟨t₀, t₁, rfl, -, -⟩ := map_eq_pair hshapes
      have hleaf : n.kind.isLeaf = false := by rw [hk]; rfl
      obtain ⟨es, hes, hesn⟩ := htyped.contractedExtents hnonneg hk
      rw [eval_contraction hk hes hesn]
      refine foldlM_isSome (fun sum k hmem => ?_) 0
      have hcon : n.kind = .contraction → ∃ es, InRange es k ∧
          n.contractedExtents [t₀, t₁] = some es := fun _ => ⟨es, mem_indices.mp hmem, hes⟩
      obtain ⟨i₀, i₁, h₁⟩ := htyped.operandIndices_pair hleaf hidx hcon
      obtain ⟨x, hx⟩ := Option.isSome_iff_exists.mp (hop k _ 0 t₀ i₀ hleaf hcon h₁ rfl rfl)
      obtain ⟨y, hy⟩ := Option.isSome_iff_exists.mp (hop k _ 1 t₁ i₁ hleaf hcon h₁ rfl rfl)
      rw [termWith_eq h₁, hx, hy]
      rfl
    | @stack s ops hk hlen hsh hops =>
      rw [shape_node, hsh] at hidx
      cases hidx with
      | @cons i _ _ rest lo hi _ =>
        have hlts : ts.length = (s :: ops).length := by rw [← hshapes, List.length_map]
        obtain ⟨t, hti⟩ := at?_eq_getElem (l := ts) lo (by rw [hlts]; exact hi)
        rw [eval_stack hk hti]
        obtain ⟨idxs, h₁, hrest⟩ := operandIndices_stack hk lo (hlen ▸ hi) (ts.map Tree.rank?) rest
        exact hop [] idxs i.toNat t rest (by rw [hk]; rfl) (by simp [hk]) h₁
          (at?_eq_some_iff.mp hti).2 hrest
    | transposition hk hx =>
      obtain ⟨t, rfl, -⟩ := map_eq_single hshapes
      obtain ⟨idx', h₁, _⟩ := hidx.backward (backward_eq_some_of_forward hx)
      rw [eval_transposition hk h₁]
      exact hop [] [idx'] 0 t idx' (by rw [hk]; rfl) (by simp [hk])
        (by simp [Node.operandIndices, hk, h₁]) rfl rfl

end Tree

end LoopNest
