import LoopNest.Proofs.Index.Visits
import LoopNest.Proofs.Tree.Reads
import LoopNest.Proofs.Tree.Unfolding

/-!
# Loads of an evaluation

`Tree.loads` lists what the evaluation of an expression loads at an index, loop by loop, with the
values of the contracted indices at which it does so. It is a list of cells only: the value of the
expression depends on these cells (`eval_congr_loads`), and is there when they have contents
(`eval_isSome_iff`). At given values of all contracted indices the loads are the reads that
`Tree.readsAt` lists (`readsAt_eq_loads`).

The indices may be of any type in which the numbers that loops run through have a place, so that the
indices of the result may stay names while the contracted indices take their values (`loads_map`).
-/

namespace LoopNest

variable {σ τ : Type} {fixed : Int → τ}

/-! ## Indices under a map -/

theorem forall₂_graph {g : σ → τ} {l : List σ} {m : List τ} :
    List.Forall₂ (fun a b => g a = b) l m ↔ l.map g = m := by
  rw [← List.forall₂_map_left_iff (R := Eq), List.forall₂_eq_eq_eq]

theorem backward_map (g : σ → τ) {ps : List Swap} {l l' : List σ} (h : backward ps l = some l') :
    backward ps (l.map g) = some (l'.map g) := by
  obtain ⟨m, hm, hrel⟩ := backward_rel (forall₂_graph.2 rfl) h
  rw [hm, forall₂_graph.1 hrel]

theorem Node.subscript_map (g : σ → τ) {n : Node} {fixed : Int → σ} {own sub : List σ}
    (h : n.subscript fixed own = some sub) :
    n.subscript (g ∘ fixed) (own.map g) = some (sub.map g) := by
  rw [subscript, ← List.map_map, ← List.map_append]
  exact backward_map g h

theorem Node.operandIndices_map (g : σ → τ) {n : Node} {ranks : List (Option Nat)}
    {res con : List σ} {ops : List (List σ)} (h : n.operandIndices ranks res con = some ops) :
    n.operandIndices ranks (res.map g) (con.map g) = some (ops.map (List.map g)) := by
  obtain ⟨ops', hops', hrel⟩ := operandIndices_rel (R := fun a b => g a = b)
    (forall₂_graph.2 rfl) (forall₂_graph.2 rfl) h
  rw [hops', ← forall₂_graph.1 (hrel.imp fun _ _ => forall₂_graph.1)]

section

variable [DecidableEq τ] {x : τ} {con : List τ}

/-- An operand of a contraction uses each free index once. -/
theorem interleaveFrom_count {axes : List Int} {m pos : Nat} {free idx rest : List τ}
    (hcon : x ∉ con) (h : interleaveFrom axes con m pos free = some (idx, rest)) :
    idx.count x + rest.count x = free.count x := by
  induction m generalizing pos free idx with
  | zero =>
    cases h
    simp
  | succ m ih =>
    unfold interleaveFrom at h
    split at h
    · simp only [Option.bind_eq_bind, Option.bind_eq_some_iff, Option.some.injEq, Prod.exists,
        Prod.mk.injEq] at h
      obtain ⟨c, hc, idx', rest', hrest, rfl, rfl⟩ := h
      have hne : c ≠ x := fun heq => hcon (heq ▸ List.mem_of_getElem? hc)
      rw [List.count_cons_of_ne hne, ih hrest]
    · split at h
      · cases h
      · simp only [Option.bind_eq_bind, Option.bind_eq_some_iff, Option.some.injEq, Prod.exists,
          Prod.mk.injEq] at h
        obtain ⟨idx', rest', hrest, rfl, rfl⟩ := h
        rw [List.count_cons, List.count_cons, ← ih hrest]
        omega

/-- An index is not used more often by an operand than by the result. -/
theorem Node.operandIndices_count {n : Node} {ranks : List (Option Nat)} {res : List τ}
    {ops : List (List τ)} (hk : n.kind ≠ .stack) (hcon : x ∉ con)
    (h : n.operandIndices ranks res con = some ops) : ∀ i ∈ ops, i.count x ≤ res.count x := by
  unfold operandIndices at h
  cases hkind : n.kind <;> simp only [hkind] at h
  case add | sub | mul | div | scalarMul | scalarDiv | invalid | identifier | constant | unknown =>
    cases h
    simp
  case product =>
    simp only [Option.bind_eq_bind, Option.bind_eq_some_iff, Option.ite_none_right_eq_some,
      Option.some.injEq] at h
    obtain ⟨split, -, -, rfl⟩ := h
    simp [(List.take_sublist split res).count_le x, (List.drop_sublist split res).count_le x]
  case contraction =>
    simp only [Option.bind_eq_bind, Option.bind_eq_some_iff, Option.some.injEq, Prod.exists] at h
    obtain ⟨_, -, lhs, rest, hlhs, _, -, rhs, rest', hrhs, rfl⟩ := h
    have h₁ := interleaveFrom_count hcon hlhs
    have h₂ := interleaveFrom_count hcon hrhs
    intro i hi
    rcases List.mem_pair.mp hi with rfl | rfl <;> omega
  case stack => exact absurd hkind hk
  case transposition =>
    simp only [Option.bind_eq_bind, Option.bind_eq_some_iff, Option.pure_def, Option.some.injEq] at h
    obtain ⟨i, hi, rfl⟩ := h
    rw [List.forall_mem_singleton]
    exact Nat.le_of_eq ((perm_forward hi).count_eq x)

end

theorem Node.Views.length_subscript {n : Node} {stored : Shape} {idx sub : List τ}
    (h : n.Views stored) (hlen : idx.length = n.shape.length)
    (hsub : n.subscript fixed idx = some sub) : sub.length = stored.length := by
  obtain ⟨lead, hfwd, hlead⟩ := h
  rw [← length_forward (backward_eq_some_iff.mp hsub), ← length_forward hfwd, List.length_append,
    List.length_append, List.length_map, hlen, hlead.length_eq]

/-! ## Loads -/

/-- An element that an evaluation loads. The contracted indices around it are given by their values
and their numbers. -/
structure Load (τ : Type) where
  sums : List (Int × Nat)
  name : String
  sub : List τ

namespace Load

/-- The load inside of loops over contracted indices, numbered from `next` on, that are at `k`. -/
def within (next : Nat) (k : List Int) (l : Load τ) : Load τ :=
  { l with sums := k.zipIdx next ++ l.sums }

@[simp] theorem name_within (next : Nat) (k : List Int) (l : Load τ) :
    (l.within next k).name = l.name := rfl

@[simp] theorem sub_within (next : Nat) (k : List Int) (l : Load τ) :
    (l.within next k).sub = l.sub := rfl

/-- The contracted indices around the load have the given values. -/
def isAt (κ : Nat → Int) (l : Load τ) : Bool := l.sums.all fun (v, t) => κ t == v

theorem isAt_within {κ : Nat → Int} {next : Nat} {k : List Int} (l : Load τ) :
    (l.within next k).isAt κ =
      (decide (k = (List.range k.length).map fun t => κ (next + t)) && l.isAt κ) := by
  have hzip : ∀ (k : List Int) (next : Nat), ((k.zipIdx next).all fun (v, t) => κ t == v) =
      decide (k = (List.range k.length).map fun t => κ (next + t)) := by
    intro k
    induction k with
    | nil => simp
    | cons v k ih =>
      intro next
      rw [List.zipIdx_cons, List.all_cons, ih, List.length_cons, List.range_succ_eq_map,
        List.map_cons, List.map_map, Nat.add_zero, Bool.eq_iff_iff]
      simp only [Bool.and_eq_true, beq_iff_eq, decide_eq_true_eq, List.cons.injEq, eq_comm (a := v)]
      refine and_congr_right fun _ => ?_
      simp only [Function.comp_def, Nat.succ_eq_add_one, Nat.add_assoc, Nat.add_comm 1]
  rw [isAt, within, List.all_append, hzip]
  rfl

/-- The load with other indices. -/
def map (g : σ → τ) (l : Load σ) : Load τ := ⟨l.sums, l.name, l.sub.map g⟩

/-- The loaded element. -/
def place (l : Load τ) : String × List τ := (l.name, l.sub)

theorem filter_within_self (κ : Nat → Int) (next m : Nat) (ls : List (Load τ)) :
    (ls.map (within next ((List.range m).map fun t => κ (next + t)))).filter (·.isAt κ) =
      (ls.filter (·.isAt κ)).map (within next ((List.range m).map fun t => κ (next + t))) := by
  rw [List.filter_map]
  congr 1
  refine List.filter_congr fun l _ => ?_
  rw [Function.comp_apply, isAt_within, List.length_map, List.length_range, decide_eq_true rfl,
    Bool.true_and]

theorem filter_within_of_ne {κ : Nat → Int} {next m : Nat} {k : List Int} {ls : List (Load τ)}
    (hlen : k.length = m) (hne : k ≠ (List.range m).map fun t => κ (next + t)) :
    (ls.map (within next k)).filter (·.isAt κ) = [] := by
  rw [List.filter_eq_nil_iff, List.forall_mem_map]
  intro l _
  rw [isAt_within, hlen, decide_eq_false hne]
  exact Bool.false_ne_true

end Load

/-- The access with other indices. -/
def Access.map (g : σ → τ) (a : Access σ) : Access τ := ⟨a.node, a.name, a.index.map g, a.write⟩

/-- The accessed element. -/
def Access.place (a : Access τ) : String × List τ := (a.name, a.index)

namespace Tree

mutual
/-- The number of contracted indices of an expression. -/
def sums : Tree → Nat
  | .missing => 0
  | .node _ n ts => if n.kind.isLeaf then 0 else n.lhsAxes.length + sumsAll ts

/-- The number of contracted indices of several expressions. -/
def sumsAll : List Tree → Nat
  | [] => 0
  | t :: ts => t.sums + sumsAll ts
end

mutual
/-- What the evaluation of an expression loads, in order, the contracted indices being numbered from
`next` on. Of a stack, only the member that its index selects would be evaluated: stacks are left
out. -/
def loads (fixed : Int → τ) : Tree → (idx : List τ) → (next : Nat) → List (Load τ)
  | .missing, _, _ => []
  | .node _ n ts, idx, next =>
    match n.kind with
    | .identifier => ((n.subscript fixed idx).map fun sub => ⟨[], n.name, sub⟩).toList
    | .constant | .stack => []
    | .contraction =>
      (visits ((n.contractedExtents ts).getD [])).flatMap fun k =>
        (loadsOperands fixed ts
          ((n.operandIndices (ts.map Tree.rank?) idx (k.map fixed)).getD [])
          (next + n.lhsAxes.length)).map (.within next k)
    | _ =>
      loadsOperands fixed ts ((n.operandIndices (ts.map Tree.rank?) idx []).getD [])
        (next + n.lhsAxes.length)

/-- What the evaluations of operands load, each at its own index. -/
def loadsOperands (fixed : Int → τ) :
    List Tree → List (List τ) → (next : Nat) → List (Load τ)
  | t :: ts, idx :: ops, next => t.loads fixed idx next ++ loadsOperands fixed ts ops (next + t.sums)
  | _, _, _ => []
end

mutual
/-- Every contracted index has a value that its loop takes. -/
def Visited (κ : Nat → Int) : Tree → (next : Nat) → Prop
  | .missing, _ => True
  | .node _ n ts, next =>
    (n.kind = .contraction → ∃ es, n.contractedExtents ts = some es ∧
      (List.range n.lhsAxes.length).map (fun t => κ (next + t)) ∈ visits es) ∧
    VisitedAll κ ts (next + n.lhsAxes.length)

/-- Every contracted index of several expressions has a value that its loop takes. -/
def VisitedAll (κ : Nat → Int) : List Tree → (next : Nat) → Prop
  | [], _ => True
  | t :: ts, next => t.Visited κ next ∧ VisitedAll κ ts (next + t.sums)
end

section

variable {id : NodeId} {n : Node} {t t₀ t₁ : Tree} {ts : List Tree} {idx i i₀ i₁ : List τ} {next : Nat}

theorem loads_node : (Tree.node id n ts).loads fixed idx next = match n.kind with
    | .identifier => ((n.subscript fixed idx).map fun sub => ⟨[], n.name, sub⟩).toList
    | .constant | .stack => []
    | .contraction => (visits ((n.contractedExtents ts).getD [])).flatMap fun k =>
      (loadsOperands fixed ts ((n.operandIndices (ts.map Tree.rank?) idx (k.map fixed)).getD [])
        (next + n.lhsAxes.length)).map (.within next k)
    | _ => loadsOperands fixed ts ((n.operandIndices (ts.map Tree.rank?) idx []).getD [])
      (next + n.lhsAxes.length) := rfl

theorem loads_ident {sub : List τ} (hk : n.kind = .identifier) (hsub : n.subscript fixed idx = some sub) :
    (Tree.node id n ts).loads fixed idx next = [⟨[], n.name, sub⟩] := by
  rw [loads_node, hk]
  simp only [hsub, Option.map_some, Option.toList_some]

theorem loads_constant (hk : n.kind = .constant) : (Tree.node id n ts).loads fixed idx next = [] := by
  rw [loads_node, hk]

theorem loads_arith {op : ArithOp} (hop : n.kind.arith? = some op)
    (hops : n.operandIndices ([t₀, t₁].map Tree.rank?) idx [] = some [i₀, i₁]) :
    (Tree.node id n [t₀, t₁]).loads fixed idx next = t₀.loads fixed i₀ (next + n.lhsAxes.length) ++
      t₁.loads fixed i₁ (next + n.lhsAxes.length + t₀.sums) := by
  rw [loads_node]
  cases hk : n.kind <;>
    simp_all [NodeKind.arith?, loadsOperands]

theorem loads_contraction {es : List Int} (hk : n.kind = .contraction)
    (hes : n.contractedExtents ts = some es) :
    (Tree.node id n ts).loads fixed idx next = (visits es).flatMap fun k =>
      (loadsOperands fixed ts ((n.operandIndices (ts.map Tree.rank?) idx (k.map fixed)).getD [])
        (next + n.lhsAxes.length)).map (.within next k) := by
  rw [loads_node, hk, hes]
  rfl

theorem loads_transposition (hk : n.kind = .transposition) (hi : backward n.pairs idx = some i) :
    (Tree.node id n [t]).loads fixed idx next = t.loads fixed i (next + n.lhsAxes.length) := by
  have hops : n.operandIndices ([t].map Tree.rank?) idx [] = some [i] := by
    simp [Node.operandIndices, hk, hi]
  rw [loads_node, hk, hops]
  exact List.append_nil _

end

theorem loadsOperands_pair (t₀ t₁ : Tree) (i₀ i₁ : List τ) (next : Nat) :
    loadsOperands fixed [t₀, t₁] [i₀, i₁] next =
      t₀.loads fixed i₀ next ++ t₁.loads fixed i₁ (next + t₀.sums) := by
  simp [loadsOperands]

theorem sums_pair {id : NodeId} {n : Node} {t₀ t₁ : Tree} (hleaf : n.kind.isLeaf = false) :
    (Tree.node id n [t₀, t₁]).sums = n.lhsAxes.length + (t₀.sums + t₁.sums) := by
  simp [sums, sumsAll, hleaf]

theorem readsOperands_pair {sum : Nat → τ} {t₀ t₁ : Tree} {i₀ i₁ : List τ} {next m₀ m₁ : Nat}
    {l₀ l₁ : List (Access τ)} (h₀ : t₀.readsAt fixed sum i₀ next = some (l₀, m₀))
    (h₁ : t₁.readsAt fixed sum i₁ m₀ = some (l₁, m₁)) :
    readsOperands fixed sum [t₀, t₁] [i₀, i₁] next = some (l₀ ++ l₁, m₁) := by
  simp [readsOperands, h₀, h₁]

/-- What is found for each of two operands is found for both. -/
theorem exists_read_pair {R : σ → τ → Prop} {fixed : Int → σ} {sum : Nat → σ} {t₀ t₁ : Tree}
    {ops : List (List σ)} {i₀ i₁ : List τ} {m m' : Nat} {reads : List (Access σ)} {l₀ l₁ : List (Load τ)}
    (hrel : List.Forall₂ (List.Forall₂ R) ops [i₀, i₁])
    (hreads : readsOperands fixed sum [t₀, t₁] ops m = some (reads, m'))
    (h₀ : ∀ {i m m' reads}, List.Forall₂ R i i₀ → t₀.readsAt fixed sum i m = some (reads, m') →
      ∀ l ∈ l₀, ∃ acc ∈ reads, acc.name = l.name ∧ List.Forall₂ R acc.index l.sub)
    (h₁ : ∀ {i m m' reads}, List.Forall₂ R i i₁ → t₁.readsAt fixed sum i m = some (reads, m') →
      ∀ l ∈ l₁, ∃ acc ∈ reads, acc.name = l.name ∧ List.Forall₂ R acc.index l.sub) :
    ∀ l ∈ l₀ ++ l₁, ∃ acc ∈ reads, acc.name = l.name ∧ List.Forall₂ R acc.index l.sub := by
  obtain _ | ⟨hrel₀, _ | ⟨hrel₁, _ | _⟩⟩ := hrel
  obtain ⟨first, m₁, rest, hfirst, hrest, rfl⟩ := readsOperands_cons_eq_some hreads
  obtain ⟨second, m₂, _, hsecond, hnil, rfl⟩ := readsOperands_cons_eq_some hrest
  cases hnil
  intro l hl
  rcases List.mem_append.mp hl with hl | hl
  · obtain ⟨acc, hacc, hl⟩ := h₀ hrel₀ hfirst l hl
    exact ⟨acc, List.mem_append_left _ hacc, hl⟩
  · obtain ⟨acc, hacc, hl⟩ := h₁ hrel₁ hsecond l hl
    exact ⟨acc, List.mem_append_right _ (List.mem_append_left _ hacc), hl⟩

/-! ## Trees at an index -/

variable {C : Node → Prop} {S : Shapes}

/-- A contraction has one extent for each contracted axis. -/
theorem Typed.exists_extents {id : NodeId} {n : Node} {ts : List Tree}
    (ht : (Tree.node id n ts).Typed C S) (hk : n.kind = .contraction) :
    ∃ es, n.contractedExtents ts = some es ∧ es.length = n.lhsAxes.length := by
  cases ht with
  | node _ hfits hts =>
    generalize hshapes : ts.map Tree.shape = shapes at hfits
    cases hfits with
    | contraction _ hx =>
      obtain ⟨t₀, t₁, rfl, hs₀, -⟩ := map_eq_pair hshapes
      have hes : n.contractedExtents [t₀, t₁] = n.lhsAxes.mapM (at? t₀.shape) :=
        contractedExtents_eq (hts t₀ (by simp))
      rw [hs₀, hx] at hes
      exact ⟨_, hes, length_mapM hx⟩
    | _ => simp_all [NodeKind.isElementwise]

/-- A well-shaped tree without stacks, together with an index list of its rank. -/
structure Indexed (C : Node → Prop) (S : Shapes) (t : Tree) (idx : List τ) : Prop where
  typed : t.Typed C S
  unstacked : ∀ n ∈ t.labels, n.kind ≠ .stack
  length : idx.length = t.shape.length

namespace Indexed

variable {id : NodeId} {n : Node} {t t₀ t₁ : Tree} {ts : List Tree} {idx i con : List τ}

theorem operand (h : (Tree.node id n ts).Indexed C S idx) (ht : t ∈ ts)
    (hlen : i.length = t.shape.length) : t.Indexed C S i := by
  refine ⟨?_, fun m hm => h.unstacked m ?_, hlen⟩
  · cases h.typed with
    | node _ _ hts => exact hts t ht
  · rw [labels_node]
    exact List.mem_cons_of_mem _ (List.mem_flatMap.mpr ⟨t, ht, hm⟩)

/-- The indices of a node with two operands lead to indices of both. -/
theorem pair (h : (Tree.node id n [t₀, t₁]).Indexed C S idx) (hleaf : n.kind.isLeaf = false)
    (hcon : con.length = n.lhsAxes.length) : ∃ i₀ i₁,
      n.operandIndices ([t₀, t₁].map Tree.rank?) idx con = some [i₀, i₁] ∧
        t₀.Indexed C S i₀ ∧ t₁.Indexed C S i₁ := by
  cases h.typed with
  | node _ hfits hts =>
    obtain ⟨ops, hops, hrel⟩ := hfits.operandIndices_of_length hleaf (P := fun _ => True) h.length
      (fun _ _ => trivial) hcon fun _ _ => trivial
    rw [← Typed.map_rank? hts] at hops
    obtain _ | ⟨h₀, _ | ⟨h₁, _ | _⟩⟩ := hrel
    exact ⟨_, _, hops, h.operand (by simp) h₀.1, h.operand (by simp) h₁.1⟩

/-- At every list of contracted indices, a contraction leads to indices of both operands. -/
theorem contraction (h : (Tree.node id n ts).Indexed C S idx) (hk : n.kind = .contraction) :
    ∃ t₀ t₁ es, ts = [t₀, t₁] ∧ n.contractedExtents ts = some es ∧ es.length = n.lhsAxes.length ∧
      ∀ con : List τ, con.length = es.length → ∃ i₀ i₁,
        n.operandIndices (ts.map Tree.rank?) idx con = some [i₀, i₁] ∧
          t₀.Indexed C S i₀ ∧ t₁.Indexed C S i₁ := by
  obtain ⟨t₀, t₁, rfl⟩ := h.typed.exists_pair hk
  obtain ⟨es, hes, hlen⟩ := h.typed.exists_extents hk
  exact ⟨t₀, t₁, es, rfl, hes, hlen, fun con hcon =>
    h.pair (by rw [hk]; rfl) (hcon.trans hlen)⟩

/-- Induction over a tree with its indices: one case for each way in which the indices of a node lead
to those of its operands. -/
theorem inductionOn {motive : Tree → List τ → Prop} (fixed : Int → τ)
    (identifier : ∀ {id n stored idx sub}, n.kind = .identifier → S n.name = some stored →
      n.Views stored → idx.length = n.shape.length → n.subscript fixed idx = some sub →
      motive (.node id n []) idx)
    (constant : ∀ {id n idx}, n.kind = .constant → motive (.node id n []) idx)
    (arith : ∀ {id n t₀ t₁ idx i₀ i₁ op}, n.kind.arith? = some op →
      n.operandIndices ([t₀, t₁].map Tree.rank?) idx [] = some [i₀, i₁] →
      motive t₀ i₀ → motive t₁ i₁ → motive (.node id n [t₀, t₁]) idx)
    (contraction : ∀ {id n t₀ t₁ es idx}, n.kind = .contraction →
      n.contractedExtents [t₀, t₁] = some es → es.length = n.lhsAxes.length →
      (∀ con : List τ, con.length = es.length → ∃ i₀ i₁,
        n.operandIndices ([t₀, t₁].map Tree.rank?) idx con = some [i₀, i₁] ∧
          motive t₀ i₀ ∧ motive t₁ i₁) → motive (.node id n [t₀, t₁]) idx)
    (transposition : ∀ {id n t idx i}, n.kind = .transposition →
      backward n.pairs idx = some i → motive t i → motive (.node id n [t]) idx)
    (h : t.Indexed C S idx) : motive t idx := by
  have ht := h.typed
  induction ht generalizing idx with
  | @node id n ts hC hfits hts ih =>
    generalize hshapes : ts.map Tree.shape = shapes at hfits
    cases hfits with
    | identifier hk hS hviews =>
      cases List.map_eq_nil_iff.mp hshapes
      obtain ⟨lead, hfwd, hlead⟩ := hviews
      obtain ⟨sub, hsub⟩ := exists_forward_of_length (backward_eq_some_of_forward hfwd)
        (m := n.fixed.map fixed ++ idx) (by
          simp only [List.length_append, List.length_map, hlead.length_eq, h.length, shape_node])
      exact identifier hk hS ⟨lead, hfwd, hlead⟩ h.length hsub
    | constant hk =>
      cases List.map_eq_nil_iff.mp hshapes
      exact constant hk
    | elementwise hk | scalarMul hk | scalarDiv hk | product hk =>
      obtain ⟨t₀, t₁, rfl, -, -⟩ := map_eq_pair hshapes
      obtain ⟨op, hop⟩ := NodeKind.exists_arith (k := n.kind) (by simp [hk, NodeKind.isScalar])
      have hnc : n.kind ≠ .contraction := fun h => by simp [h, NodeKind.arith?] at hop
      have hcon : (List.replicate n.lhsAxes.length (fixed 0)).length = n.lhsAxes.length :=
        List.length_replicate
      obtain ⟨i₀, i₁, hops, h₀, h₁⟩ := h.pair (NodeKind.isLeaf_of_arith hop) hcon
      rw [Node.operandIndices_of_ne_contraction hnc _ _ _ []] at hops
      exact arith hop hops (ih t₀ (by simp) h₀) (ih t₁ (by simp) h₁)
    | contraction hk =>
      obtain ⟨t₀, t₁, es, rfl, hes, hlen, hpair⟩ := h.contraction hk
      refine contraction hk hes hlen fun con hcon => ?_
      obtain ⟨i₀, i₁, hops, h₀, h₁⟩ := hpair con hcon
      exact ⟨i₀, i₁, hops, ih t₀ (by simp) h₀, ih t₁ (by simp) h₁⟩
    | stack hk => exact absurd hk (h.unstacked n (by simp))
    | transposition hk hx =>
      obtain ⟨t, rfl, hs⟩ := map_eq_single hshapes
      obtain ⟨i, hi⟩ := exists_forward_of_length (backward_eq_some_of_forward hx) (m := idx) h.length
      have ht : t.Indexed C S i := h.operand (by simp) (by
        rw [length_forward hi, h.length, hs, shape_node, ← length_forward hx])
      exact transposition hk hi (ih t (by simp) ht)

end Indexed

section

variable {t : Tree} {idx : List τ} (h : t.Indexed C S idx)
include h

/-- The loads at indices of one type are those at indices of another one, under a map. -/
theorem Indexed.loads_map (g : τ → σ) (next : Nat) :
    t.loads (g ∘ fixed) (idx.map g) next = (t.loads fixed idx next).map (.map g) := by
  refine h.inductionOn
    (motive := fun t idx => ∀ next,
      t.loads (g ∘ fixed) (idx.map g) next = (t.loads fixed idx next).map (.map g))
    fixed ?_ ?_ ?_ ?_ ?_ next
  · intro id n stored idx sub hk _ _ _ hsub next
    rw [loads_ident hk hsub, loads_ident hk (Node.subscript_map g hsub)]
    rfl
  · intro id n idx hk next
    rw [loads_constant hk, loads_constant hk, List.map_nil]
  · intro id n t₀ t₁ idx i₀ i₁ op hop hops h₀ h₁ next
    rw [loads_arith hop hops, loads_arith hop (Node.operandIndices_map g hops), h₀, h₁,
      List.map_append]
  · intro id n t₀ t₁ es idx hk hes _ hops next
    rw [loads_contraction hk hes, loads_contraction hk hes, List.map_flatMap]
    refine List.flatMap_congr fun k hk => ?_
    obtain ⟨i₀, i₁, h, h₀, h₁⟩ := hops (k.map fixed) (by simpa using length_of_mem_visits hk)
    have h' := Node.operandIndices_map g h
    rw [List.map_map] at h'
    rw [h, h', Option.getD_some, Option.getD_some, List.map_cons, List.map_cons, List.map_nil,
      loadsOperands_pair, loadsOperands_pair, h₀, h₁, ← List.map_append, List.map_map, List.map_map]
    rfl
  · intro id n t idx i hk hi h next
    rw [loads_transposition hk hi, loads_transposition hk (backward_map g hi), h]

/-- What is loaded is declared, and subscripted by one index for each stored axis. -/
theorem Indexed.loads_declared (next : Nat) : ∀ l ∈ t.loads fixed idx next,
    ∃ stored, S l.name = some stored ∧ l.sub.length = stored.length := by
  refine h.inductionOn
    (motive := fun t idx => ∀ next, ∀ l ∈ t.loads fixed idx next,
      ∃ stored, S l.name = some stored ∧ l.sub.length = stored.length)
    fixed ?_ ?_ ?_ ?_ ?_ next
  · intro id n stored idx sub hk hS hviews hlen hsub next
    rw [loads_ident hk hsub, List.forall_mem_singleton]
    exact ⟨stored, hS, hviews.length_subscript hlen hsub⟩
  · intro id n idx hk next
    rw [loads_constant hk]
    exact List.forall_mem_nil _
  · intro id n t₀ t₁ idx i₀ i₁ op hop hops h₀ h₁ next
    rw [loads_arith hop hops, List.forall_mem_append]
    exact ⟨h₀ _, h₁ _⟩
  · intro id n t₀ t₁ es idx hk hes _ hops next
    rw [loads_contraction hk hes, List.forall_mem_flatMap]
    intro k hk
    obtain ⟨i₀, i₁, h, h₀, h₁⟩ := hops (k.map fixed) (by simpa using length_of_mem_visits hk)
    rw [h, Option.getD_some, loadsOperands_pair, List.forall_mem_map, List.forall_mem_append]
    exact ⟨h₀ _, h₁ _⟩
  · intro id n t idx i hk hi h next
    rw [loads_transposition hk hi]
    exact h _

/-- An index of the result is not used more often by a load than by the result. -/
theorem Indexed.loads_count [DecidableEq τ] {x : τ} (hx : ∀ k, fixed k ≠ x) (next : Nat) :
    ∀ l ∈ t.loads fixed idx next, l.sub.count x ≤ idx.count x := by
  have hnot : ∀ l : List Int, x ∉ l.map fixed := fun l hmem => by
    obtain ⟨k, -, heq⟩ := List.mem_map.mp hmem
    exact hx k heq
  refine h.inductionOn
    (motive := fun t idx => ∀ next, ∀ l ∈ t.loads fixed idx next, l.sub.count x ≤ idx.count x)
    fixed ?_ ?_ ?_ ?_ ?_ next
  · intro id n stored idx sub hk _ _ _ hsub next
    have hcount : sub.count x = idx.count x := by
      rw [(perm_forward hsub).count_eq, List.count_append, List.count_eq_zero_of_not_mem (hnot _),
        Nat.zero_add]
    rw [loads_ident hk hsub, List.forall_mem_singleton]
    exact Nat.le_of_eq hcount
  · intro id n idx hk next
    rw [loads_constant hk]
    exact List.forall_mem_nil _
  · intro id n t₀ t₁ idx i₀ i₁ op hop hops h₀ h₁ next
    have hcount := Node.operandIndices_count (x := x)
      (fun h => by simp [h, NodeKind.arith?] at hop) List.not_mem_nil hops
    rw [loads_arith hop hops, List.forall_mem_append]
    exact ⟨fun l hl => Nat.le_trans (h₀ _ l hl) (hcount i₀ (by simp)),
      fun l hl => Nat.le_trans (h₁ _ l hl) (hcount i₁ (by simp))⟩
  · intro id n t₀ t₁ es idx hk hes _ hops next
    rw [loads_contraction hk hes, List.forall_mem_flatMap]
    intro k hk'
    obtain ⟨i₀, i₁, h, h₀, h₁⟩ := hops (k.map fixed) (by simpa using length_of_mem_visits hk')
    have hcount := Node.operandIndices_count (by simp [hk]) (hnot k) h
    rw [h, Option.getD_some, loadsOperands_pair, List.forall_mem_map, List.forall_mem_append]
    exact ⟨fun l hl => Nat.le_trans (h₀ _ l hl) (hcount i₀ (by simp)),
      fun l hl => Nat.le_trans (h₁ _ l hl) (hcount i₁ (by simp))⟩
  · intro id n t idx i hk hi h next
    rw [loads_transposition hk hi, ← (perm_forward hi).count_eq]
    exact h _

/-- Every load comes from a read with a related subscript, whenever the indices are related. -/
theorem Indexed.exists_read {R : σ → τ → Prop} {fixed' : Int → σ} {sum : Nat → σ}
    (hfixed : ∀ k, R (fixed' k) (fixed k)) (hsum : ∀ t k, R (sum t) (fixed k)) {idx' : List σ}
    (hidx : List.Forall₂ R idx' idx) {m m' : Nat} {reads : List (Access σ)}
    (hreads : t.readsAt fixed' sum idx' m = some (reads, m')) (next : Nat) :
    ∀ l ∈ t.loads fixed idx next, ∃ acc ∈ reads, acc.name = l.name ∧
      List.Forall₂ R acc.index l.sub := by
  refine h.inductionOn
    (motive := fun t idx => ∀ idx', List.Forall₂ R idx' idx → ∀ m m' reads,
      t.readsAt fixed' sum idx' m = some (reads, m') → ∀ next, ∀ l ∈ t.loads fixed idx next,
        ∃ acc ∈ reads, acc.name = l.name ∧ List.Forall₂ R acc.index l.sub)
    fixed ?_ ?_ ?_ ?_ ?_ idx' hidx m m' reads hreads next
  · intro id n stored idx sub hk _ _ _ hsub idx' hidx m m' reads hreads next
    rw [loads_ident hk hsub, List.forall_mem_singleton]
    rw [readsAt_ident hk, Option.map_eq_some_iff] at hreads
    obtain ⟨sub', hsub', heq⟩ := hreads
    cases heq
    obtain ⟨sub₂, hsub₂, hrel⟩ := Node.subscript_rel (List.forall₂_map_left_iff.mpr
      (List.forall₂_map_right_iff.mpr (List.forall₂_same.mpr fun k _ => hfixed k))) hidx hsub'
    cases hsub.symm.trans hsub₂
    exact ⟨_, .head _, rfl, hrel⟩
  · intro id n idx hk idx' _ m m' reads _ next
    rw [loads_constant hk]
    exact List.forall_mem_nil _
  · intro id n t₀ t₁ idx i₀ i₁ op hop hops h₀ h₁ idx' hidx m m' reads hreads next
    have hnc : n.kind ≠ .contraction := fun h => by simp [h, NodeKind.arith?] at hop
    rw [readsAt_operands (NodeKind.isLeaf_of_arith hop),
      Node.operandIndices_of_ne_contraction hnc _ _ _ [], Option.bind_eq_some_iff] at hreads
    obtain ⟨ops, hops', hreads⟩ := hreads
    obtain ⟨ops₂, hops₂, hrel⟩ := Node.operandIndices_rel hidx .nil hops'
    cases hops.symm.trans hops₂
    rw [loads_arith hop hops]
    exact exists_read_pair hrel hreads (fun hidx hreads => h₀ _ hidx _ _ _ hreads _)
      fun hidx hreads => h₁ _ hidx _ _ _ hreads _
  · intro id n t₀ t₁ es idx hk hes hlen hops idx' hidx m m' reads hreads next
    rw [readsAt_operands (by rw [hk]; rfl), Option.bind_eq_some_iff] at hreads
    obtain ⟨ops, hops', hreads⟩ := hreads
    rw [loads_contraction hk hes, List.forall_mem_flatMap]
    intro k hk'
    have hklen := length_of_mem_visits hk'
    obtain ⟨i₀, i₁, h, h₀, h₁⟩ := hops (k.map fixed) (by simpa using hklen)
    have hcon : List.Forall₂ R ((List.range n.lhsAxes.length).map fun t => sum (m + t))
        (k.map fixed) := List.forall₂_iff_get.mpr
      ⟨by simp [hklen, hlen], fun i hi hi' => by simpa using hsum _ _⟩
    obtain ⟨ops₂, hops₂, hrel⟩ := Node.operandIndices_rel hidx hcon hops'
    cases h.symm.trans hops₂
    rw [h, Option.getD_some, loadsOperands_pair, List.forall_mem_map]
    exact exists_read_pair hrel hreads (fun hidx hreads => h₀ _ hidx _ _ _ hreads _)
      fun hidx hreads => h₁ _ hidx _ _ _ hreads _
  · intro id n t idx i hk hi ih idx' hidx m m' reads hreads next
    rw [readsAt_operands (by rw [hk]; rfl), Option.bind_eq_some_iff] at hreads
    obtain ⟨ops, hops', hreads⟩ := hreads
    obtain ⟨i', hi', hrel⟩ : ∃ i', backward n.pairs idx' = some i' ∧ List.Forall₂ R i' i := by
      obtain ⟨i', hi', hrel⟩ := backward_rel hidx.flip hi
      exact ⟨i', hi', hrel.flip⟩
    simp only [Node.operandIndices, hk, hi', Option.bind_eq_bind, Option.bind_some, Option.pure_def,
      Option.some.injEq] at hops'
    subst hops'
    obtain ⟨first, m₁, _, hfirst, hnil, rfl⟩ := readsOperands_cons_eq_some hreads
    cases hnil
    rw [loads_transposition hk hi, List.append_nil]
    exact ih i' hrel _ _ _ hfirst _

end

/-! ## Reads and loads -/

/-- The reads at indices of one type lead to those at indices of another one, under a map. -/
theorem readsAt_map (g : σ → τ) {fixed : Int → σ} {sum : Nat → σ} {t : Tree} {idx : List σ}
    {next next' : Nat} {l : List (Access σ)} (h : t.readsAt fixed sum idx next = some (l, next')) :
    t.readsAt (g ∘ fixed) (g ∘ sum) (idx.map g) next = some (l.map (Access.map g), next') := by
  induction t using Tree.inductionOn generalizing idx next l next' with
  | missing => cases h
  | node id n ts ih =>
    by_cases hk : n.kind = .identifier
    · rw [readsAt_ident hk, Option.map_eq_some_iff] at h
      obtain ⟨sub, hsub, heq⟩ := h
      cases heq
      rw [readsAt_ident hk, Node.subscript_map g hsub]
      rfl
    · by_cases hk' : n.kind = .constant
      · rw [readsAt_constant hk'] at h
        cases h
        exact readsAt_constant hk' _ _
      · rw [readsAt_operation hk hk', Option.bind_eq_some_iff] at h
        obtain ⟨ops, hops, h⟩ := h
        have hops' := Node.operandIndices_map g hops
        rw [List.map_map] at hops'
        rw [readsAt_operation hk hk',
          show (List.range n.lhsAxes.length).map (fun t => (g ∘ sum) (next + t)) =
            (List.range n.lhsAxes.length).map (g ∘ fun t => sum (next + t)) from rfl, hops',
          Option.bind_some]
        clear hops hops'
        generalize next + n.lhsAxes.length = next at h ⊢
        induction ts generalizing ops next l next' with
        | nil =>
          cases h
          rfl
        | cons t ts ihts =>
          cases ops with
          | nil => cases h
          | cons idx ops =>
            obtain ⟨first, m, rest, hfirst, hrest, rfl⟩ := readsOperands_cons_eq_some h
            rw [List.map_cons, readsOperands_cons, ih t (.head _) hfirst, Option.bind_some,
              ihts (fun t ht => ih t (List.mem_cons_of_mem _ ht)) ops m hrest, Option.bind_some,
              List.map_append]

section

variable {t : Tree} {idx : List τ} (h : t.Indexed C S idx)
include h

/-- At given values of the contracted indices the reads of an expression are its loads. -/
theorem Indexed.readsAt_eq_loads {κ : Nat → Int} (next : Nat) (hκ : t.Visited κ next) :
    ∃ reads, t.readsAt fixed (fun t => fixed (κ t)) idx next = some (reads, next + t.sums) ∧
      reads.map Access.place = ((t.loads fixed idx next).filter (·.isAt κ)).map Load.place := by
  refine h.inductionOn
    (motive := fun t idx => ∀ next, t.Visited κ next → ∃ reads,
      t.readsAt fixed (fun t => fixed (κ t)) idx next = some (reads, next + t.sums) ∧
        reads.map Access.place = ((t.loads fixed idx next).filter (·.isAt κ)).map Load.place)
    fixed ?_ ?_ ?_ ?_ ?_ next hκ
  · intro id n stored idx sub hk _ _ _ hsub next _
    rw [readsAt_ident hk, hsub, loads_ident hk hsub, sums, if_pos (by rw [hk]; rfl)]
    exact ⟨_, rfl, rfl⟩
  · intro id n idx hk next _
    rw [readsAt_constant hk, loads_constant hk, sums, if_pos (by rw [hk]; rfl)]
    exact ⟨_, rfl, rfl⟩
  · intro id n t₀ t₁ idx i₀ i₁ op hop hops h₀ h₁ next hκ
    obtain ⟨-, hκ₀, hκ₁, -⟩ := hκ
    have hnc : n.kind ≠ .contraction := fun h => by simp [h, NodeKind.arith?] at hop
    obtain ⟨l₀, hl₀, hp₀⟩ := h₀ _ hκ₀
    obtain ⟨l₁, hl₁, hp₁⟩ := h₁ _ hκ₁
    rw [readsAt_operands (NodeKind.isLeaf_of_arith hop),
      Node.operandIndices_of_ne_contraction hnc _ _ _ [], hops, Option.bind_some,
      readsOperands_pair hl₀ hl₁, loads_arith hop hops, sums_pair (NodeKind.isLeaf_of_arith hop)]
    refine ⟨l₀ ++ l₁, by simp only [Nat.add_assoc], ?_⟩
    rw [List.map_append, hp₀, hp₁, List.filter_append, List.map_append]
  · intro id n t₀ t₁ es idx hk hes hlen hops next hκ
    obtain ⟨hsum, hκ₀, hκ₁, -⟩ := hκ
    obtain ⟨es', hes', hvisit⟩ := hsum hk
    rw [hes] at hes'
    cases hes'
    have hleaf : n.kind.isLeaf = false := by rw [hk]; rfl
    -- only the loops at the given values have loads that are kept
    obtain ⟨i₀, i₁, h, h₀, h₁⟩ := hops
      (((List.range n.lhsAxes.length).map fun t => κ (next + t)).map fixed) (by simp [hlen])
    obtain ⟨l₀, hl₀, hp₀⟩ := h₀ _ hκ₀
    obtain ⟨l₁, hl₁, hp₁⟩ := h₁ _ hκ₁
    rw [readsAt_operands hleaf]
    have h' := h
    rw [List.map_map] at h'
    rw [show (List.range n.lhsAxes.length).map (fun t => fixed (κ (next + t))) =
      (List.range n.lhsAxes.length).map (fixed ∘ fun t => κ (next + t)) from rfl, h',
      Option.bind_some, readsOperands_pair hl₀ hl₁, sums_pair hleaf]
    refine ⟨l₀ ++ l₁, by simp only [Nat.add_assoc], ?_⟩
    rw [loads_contraction hk hes, List.filter_flatMap,
      flatMap_eq_of_forall_ne (nodup_visits es) hvisit fun k hk hne => ?_]
    · rw [h, Option.getD_some, loadsOperands_pair, Load.filter_within_self, List.map_append, hp₀,
        hp₁, List.map_map, List.filter_append, List.map_append]
      rfl
    · exact Load.filter_within_of_ne (by
        rw [length_of_mem_visits hk, hlen]) hne
  · intro id n t idx i hk hi h next hκ
    obtain ⟨-, hκ, -⟩ := hκ
    have hleaf : n.kind.isLeaf = false := by rw [hk]; rfl
    obtain ⟨l, hl, hp⟩ := h _ hκ
    have hops : ∀ con : List τ, n.operandIndices ([t].map Tree.rank?) idx con = some [i] := by
      intro con
      simp [Node.operandIndices, hk, hi]
    rw [readsAt_operands hleaf, hops, Option.bind_some, loads_transposition hk hi]
    refine ⟨l, ?_, hp⟩
    simp [readsOperands, hl, sums, sumsAll, hleaf, Nat.add_assoc]

end

/-- The identifiers at some places, with their numbers and names. -/
def identsAt (pls : List (Slot × NodeId × Node)) : List (NodeId × String) :=
  (pls.filter (·.2.2.kind == .identifier)).map fun pl => (pl.2.1, pl.2.2.name)

theorem StoredIn.idents_places {nodes : Array Node} {t : Tree} (h : t.StoredIn nodes) :
    ∃ is, t.idents = some is ∧
      is.map (fun i => (i.1, i.2.name)) = identsAt (t.places .root) := by
  refine ⟨_, by simp only [idents, walk, h.walkFrom_eq, Option.bind_eq_bind, Option.bind_some]; rfl, ?_⟩
  rw [List.map_map]
  rfl

/-- There is one read for each identifier, in depth-first order. -/
theorem Typed.readsAt_idents {sum : Nat → τ} {t : Tree} (ht : t.Typed C S) {idx : List τ}
    {next next' : Nat} {l : List (Access τ)}
    (hl : t.readsAt fixed sum idx next = some (l, next')) (slot : Slot) :
    l.map (fun r => (r.node, r.name)) = identsAt (t.places slot) := by
  induction ht generalizing idx next l next' slot with
  | @node id n ts hC hfits hts ih =>
    cases hleaf : n.kind.isLeaf with
    | true =>
      generalize hshapes : ts.map Tree.shape = shapes at hfits
      cases hfits with
      | identifier hk =>
        cases List.map_eq_nil_iff.mp hshapes
        rw [readsAt_ident hk, Option.map_eq_some_iff] at hl
        obtain ⟨sub, -, heq⟩ := hl
        cases heq
        simp [identsAt, places, placesAll, hk]
      | constant hk =>
        cases List.map_eq_nil_iff.mp hshapes
        rw [readsAt_constant hk] at hl
        cases hl
        simp [identsAt, places, placesAll, hk]
      | elementwise hk => simp [NodeKind.isLeaf_of_elementwise hk] at hleaf
      | scalarMul hk | scalarDiv hk | product hk | contraction hk | stack hk | transposition hk =>
        simp [hk, NodeKind.isLeaf] at hleaf
    | false =>
      have hnot : (n.kind == .identifier) = false := by
        rw [beq_eq_false_iff_ne]
        rintro hk
        simp [hk, NodeKind.isLeaf] at hleaf
      rw [readsAt_operands hleaf, Option.bind_eq_some_iff] at hl
      obtain ⟨ops, -, hl⟩ := hl
      have hoperands : ∀ (ts : List Tree), (∀ t ∈ ts, ∀ {idx next l next'},
          t.readsAt fixed sum idx next = some (l, next') → ∀ slot,
            l.map (fun r => (r.node, r.name)) = identsAt (t.places slot)) →
          ∀ {ops next l next'}, readsOperands fixed sum ts ops next = some (l, next') → ∀ i,
            l.map (fun r => (r.node, r.name)) = identsAt (placesAll id i ts) := by
        intro ts
        induction ts with
        | nil =>
          intro _ ops next l next' hl i
          cases hl
          rfl
        | cons t ts ihts =>
          intro h ops next l next' hl i
          cases ops with
          | nil => cases hl
          | cons idx ops =>
            obtain ⟨first, m, rest, hfirst, hrest, rfl⟩ := readsOperands_cons_eq_some hl
            rw [List.map_append, h t (.head _) hfirst (.operand id i),
              ihts (fun t ht => h t (List.mem_cons_of_mem _ ht)) hrest (i + 1), placesAll, identsAt,
              identsAt, identsAt, List.filter_append, List.map_append]
      rw [hoperands ts (fun t ht => ih t ht) hl 0, places, identsAt, identsAt,
        List.filter_cons_of_neg (by simp [hnot])]

/-! ## Values and loads -/

section

variable {α : Type} [Scalar α] {cells cells' : Cells α}

theorem eval_contraction_visits {id : NodeId} {n : Node} {ts : List Tree} {idx es : List Int}
    (hk : n.kind = .contraction) (hes : n.contractedExtents ts = some es) :
    (Tree.node id n ts).eval cells idx = (visits es).foldlM (fun sum k =>
      (n.termWith ts (ts.map (Tree.eval cells)) idx k).bind fun v => some (sum + v)) 0 := by
  simp only [eval_node, Node.evalWith, hk, hes, Option.bind_eq_bind, Option.bind_some,
    forEach_eq_visits, Option.pure_def]

variable {t : Tree} {idx : List Int} (h : t.Indexed C S idx)
include h

/-- The value of an expression only depends on the cells that it loads. -/
theorem Indexed.eval_congr_loads (next : Nat)
    (hcells : ∀ l ∈ t.loads id idx next, cells l.name l.sub = cells' l.name l.sub) :
    t.eval cells idx = t.eval cells' idx := by
  refine h.inductionOn
    (motive := fun t idx => ∀ next,
      (∀ l ∈ t.loads id idx next, cells l.name l.sub = cells' l.name l.sub) →
        t.eval cells idx = t.eval cells' idx)
    id ?_ ?_ ?_ ?_ ?_ next hcells
  · intro i n stored idx sub hk _ _ _ hsub next h
    rw [loads_ident hk hsub] at h
    rw [eval_ident hk, eval_ident hk, loadAt, loadAt, hsub]
    exact h _ (.head _)
  · intro i n idx hk next _
    rw [eval_constant hk, eval_constant hk]
  · intro i n t₀ t₁ idx i₀ i₁ op hop hops h₀ h₁ next h
    rw [loads_arith hop hops, List.forall_mem_append] at h
    rw [eval_arith hop hops, eval_arith hop hops, h₀ _ h.1, h₁ _ h.2]
  · intro i n t₀ t₁ es idx hk hes _ hops next h
    rw [loads_contraction hk hes, List.forall_mem_flatMap] at h
    rw [eval_contraction_visits hk hes, eval_contraction_visits hk hes]
    refine foldlM_congr (fun sum k hk' => ?_) 0
    obtain ⟨i₀, i₁, hpair, h₀, h₁⟩ := hops k (by simpa using length_of_mem_visits hk')
    have hloads := h k hk'
    rw [List.map_id, hpair, Option.getD_some, loadsOperands_pair, List.forall_mem_map,
      List.forall_mem_append] at hloads
    rw [termWith_eq hpair, termWith_eq hpair, h₀ _ hloads.1, h₁ _ hloads.2]
  · intro i n t idx i' hk hi ih next h
    rw [loads_transposition hk hi] at h
    rw [eval_transposition hk hi, eval_transposition hk hi, ih _ h]

/-- An expression has a value when all that it loads is there. -/
theorem Indexed.eval_isSome_iff (next : Nat) : (t.eval cells idx).isSome ↔
    ∀ l ∈ t.loads id idx next, (cells l.name l.sub).isSome := by
  refine h.inductionOn
    (motive := fun t idx => ∀ next, (t.eval cells idx).isSome ↔
      ∀ l ∈ t.loads id idx next, (cells l.name l.sub).isSome)
    id ?_ ?_ ?_ ?_ ?_ next
  · intro i n stored idx sub hk _ _ _ hsub next
    rw [loads_ident hk hsub, eval_ident hk, loadAt, hsub, Option.bind_eq_bind, Option.bind_some,
      List.forall_mem_singleton]
  · intro i n idx hk next
    rw [eval_constant hk, loads_constant hk]
    simp
  · intro i n t₀ t₁ idx i₀ i₁ op hop hops h₀ h₁ next
    rw [eval_arith hop hops, loads_arith hop hops, List.forall_mem_append, ← h₀, ← h₁]
    cases t₀.eval cells i₀ <;> cases t₁.eval cells i₁ <;> simp
  · intro i n t₀ t₁ es idx hk hes _ hops next
    rw [eval_contraction_visits hk hes, loads_contraction hk hes, List.forall_mem_flatMap]
    refine isSome_foldlM_iff (fun _ => True) trivial fun sum k hk' _ => ⟨?_, fun _ _ => trivial⟩
    obtain ⟨i₀, i₁, hpair, h₀, h₁⟩ := hops k (by simpa using length_of_mem_visits hk')
    simp only [List.map_id, hpair, Option.getD_some, loadsOperands_pair, List.forall_mem_map,
      List.forall_mem_append, termWith_eq hpair, Load.name_within, Load.sub_within, ← h₀, ← h₁]
    cases t₀.eval cells i₀ <;> cases t₁.eval cells i₁ <;> simp
  · intro i n t idx i' hk hi ih next
    rw [loads_transposition hk hi, eval_transposition hk hi, ih]

end

end Tree

end LoopNest
