import LoopNest.Proofs.Execution
import LoopNest.Proofs.Typed.Translation
import LoopNest.Typed.Eval

/-!
# Whole-tensor evaluation and clauses

Evaluating an expression gives the tensor whose elements are the values of the tree of the
expression (`Shaped.eval_spec`), and evaluating the statements of a program does to a memory what
the clauses of the program do to its cells (`Program.evalStmts_spec`).
-/

namespace LoopNest

variable {α : Type} [Scalar α]

/-- The shapes of the class are those of arrays that can be held. -/
def ShapeClass.Bounded (K : ShapeClass) : Prop :=
  ∀ {s : Shape}, K.Mem s → holdsElements 8 (Shape.count s) = true

theorem ShapeClass.Bounded.count_le {K : ShapeClass} (h : K.Bounded) {s : Shape} (hs : K.Mem s) :
    Shape.count s ≤ 35184372088832 := by
  have hold := h hs
  rw [holdsElements, Bool.and_eq_true, decide_eq_true_eq, decide_eq_true_eq, arrayBytes] at hold
  omega

theorem ShapeClass.Bounded.size_eq {K : ShapeClass} (h : K.Bounded) {s : Shape} (hs : K.Mem s) :
    s.size = Shape.count s :=
  Shape.size_eq_count (K.pos hs) (Int.lt_of_le_of_lt (h.count_le hs) (by decide))

theorem ShapeClass.Bounded.count_le_word {K : ShapeClass} (h : K.Bounded) {s : Shape} (hs : K.Mem s) :
    Shape.count s ≤ 0x8000000000000000 := Int.le_trans (h.count_le hs) (by decide)

/-! ## Building tensors -/

namespace Tensor

variable {K : ShapeClass} {dims : Shape}

theorem zeros_spec (hK : K.Bounded) (hdims : K.Mem dims) :
    ∃ t : Tensor α, zeros dims = some t ∧ t.Full dims := by
  have hpos := Shape.count_pos (K.pos hdims)
  refine ⟨_, if_pos ?_, rfl, ?_⟩
  · rw [hK.size_eq hdims]
    exact hK hdims
  · rw [Array.size_replicate, hK.size_eq hdims]
    omega

/-- A tensor with given elements. -/
theorem tabulate_spec (hK : K.Bounded) (hdims : K.Mem dims) {f : List Int → Option α}
    (hf : ∀ idx, InRange dims idx → (f idx).isSome) :
    ∃ t, tabulate dims f = some t ∧ t.Full dims ∧ ∀ idx, InRange dims idx → t.get? idx = f idx := by
  obtain ⟨t₀, hzeros, hfull₀⟩ := zeros_spec (α := α) hK hdims
  rw [tabulate, hzeros, Option.bind_eq_bind, Option.bind_some, forEach_eq_foldlM (K.sized _ hdims)]
  have hfold := foldlM_invariant (f := fun t idx => do t.set? idx (← f idx)) (l := indices dims) (s := t₀)
    (fun done t => t.Full dims ∧ ∀ idx ∈ done, InRange dims idx → t.get? idx = f idx)
    ⟨hfull₀, by simp⟩ (fun done idx rest t hindices ⟨hfull, hdone⟩ => by
      have hidx : InRange dims idx := mem_indices.mp (hindices ▸ by simp)
      obtain ⟨v, hv⟩ := Option.isSome_iff_exists.mp (hf idx hidx)
      obtain ⟨t', hset, hfull', hget⟩ := hfull.set?_spec (hK.count_le_word hdims) hidx v
      refine ⟨t', by simp [hv, hset], hfull', fun idx' hmem hin => ?_⟩
      rw [hget idx' hin]
      split
      · rename_i heq
        rw [heq, hv]
      · rename_i hne
        exact hdone idx' ((List.mem_append.mp hmem).resolve_right (by simpa using hne)) hin)
  obtain ⟨t, hrun, hfull, hget⟩ := hfold
  exact ⟨t, hrun, hfull, fun idx hidx => hget idx (mem_indices.mpr hidx) hidx⟩

end Tensor

theorem length_flatMap_const {β γ : Type _} {g : β → List γ} {n : Nat} {l : List β}
    (h : ∀ x ∈ l, (g x).length = n) : (l.flatMap g).length = l.length * n := by
  induction l with
  | nil => simp
  | cons x l ih =>
    rw [List.flatMap_cons, List.length_append, h x (.head _),
      ih fun y hy => h y (List.mem_cons_of_mem _ hy), List.length_cons, Nat.succ_mul, Nat.add_comm]

/-- The elements of blocks of one length that stand one after the other. -/
theorem getElem?_flatMap {β γ : Type _} {g : β → List γ} {n : Nat} {l : List β}
    (h : ∀ x ∈ l, (g x).length = n) (i : Nat) {j : Nat} (hj : j < n) :
    (l.flatMap g)[i * n + j]? = (l[i]?).bind fun x => (g x)[j]? := by
  induction l generalizing i with
  | nil => simp
  | cons x l ih =>
    have hx := h x (.head _)
    rw [List.flatMap_cons]
    cases i with
    | zero =>
      rw [Nat.zero_mul, Nat.zero_add, List.getElem?_append_left (hx ▸ hj)]
      rfl
    | succ i =>
      rw [List.getElem?_append_right (by rw [hx, Nat.succ_mul]; omega), hx,
        show (i + 1) * n + j - n = i * n + j by rw [Nat.succ_mul]; omega,
        ih (fun y hy => h y (List.mem_cons_of_mem _ hy))]
      rfl

/-- A tensor holds the values of a function of the index. -/
structure Tensor.Holds {α : Type} (t : Tensor α) (dims : Shape) (value : List Int → Option α) :
    Prop where
  full : t.Full dims
  get : ∀ idx, InRange dims idx → t.get? idx = value idx

namespace Tensor.Holds

variable {β : Type} {dims : Shape} {t : Tensor β} {f g : List Int → Option β}

theorem of_list {data : List β} (hc : Shape.count dims ≤ 0x8000000000000000)
    (hlen : (data.length : Int) = Shape.count dims)
    (h : ∀ idx, InRange dims idx → data[(flatten dims idx).toNat]? = f idx) :
    Holds ⟨dims, data.toArray⟩ dims f := by
  have hfull : Tensor.Full (⟨dims, data.toArray⟩ : Tensor β) dims := ⟨rfl, by simpa using hlen⟩
  refine ⟨hfull, fun idx hidx => ?_⟩
  rw [hfull.get?_eq hc hidx, List.getElem?_toArray, h idx hidx]

/-- The element at the position of an index. -/
theorem getElem? (h : t.Holds dims f) (hc : Shape.count dims ≤ 0x8000000000000000) {idx : List Int}
    (hidx : InRange dims idx) : t.data[(flatten dims idx).toNat]? = f idx := by
  rw [← h.full.get?_eq hc hidx, h.get idx hidx]

theorem length_toList (h : t.Holds dims f) : (t.data.toList.length : Int) = Shape.count dims := by
  rw [Array.length_toList]
  exact h.full.2

theorem congr (h : t.Holds dims f) (heq : ∀ idx, InRange dims idx → f idx = g idx) :
    t.Holds dims g :=
  ⟨h.full, fun idx hidx => (h.get idx hidx).trans (heq idx hidx)⟩

end Tensor.Holds

/-! ## The operations on tensors -/

namespace Typed

variable {K : ShapeClass} {dims dims' : Shape} {t u : Tensor α} {f g : List Int → Option α}

/-- The operation on elements that a kind of node stands for. -/
theorem applyOp_eq {op : NodeKind} (h : op.isElementwise ∨ op = .scalarMul) :
    ∃ arith, op.arith? = some arith ∧ ∀ a b : α, applyOp op a b = some (arith.eval a b) := by
  rcases h with h | rfl
  · cases op with
    | add => exact ⟨.add, rfl, fun _ _ => rfl⟩
    | sub => exact ⟨.sub, rfl, fun _ _ => rfl⟩
    | mul => exact ⟨.mul, rfl, fun _ _ => rfl⟩
    | div => exact ⟨.div, rfl, fun _ _ => rfl⟩
    | _ => cases h
  · exact ⟨.mul, rfl, fun _ _ => rfl⟩

/-- Combining elements at the same positions. -/
theorem zipTensors_spec (hc : Shape.count dims ≤ 0x8000000000000000) (ht : t.Holds dims f)
    (hu : u.Holds dims g) {op : NodeKind} (hop : op.isElementwise) {arith : ArithOp}
    (harith : op.arith? = some arith) :
    ∃ v, zipTensors op t u = some v ∧
      v.Holds dims fun idx => (f idx).bind fun x => (g idx).bind fun y => some (arith.eval x y) := by
  obtain ⟨arith', ha, happly⟩ := applyOp_eq (α := α) (.inl hop)
  rw [harith] at ha
  cases ha
  have hmap := mapM_eq_some_map (l := t.data.toList.zip u.data.toList) fun x _ => happly x.1 x.2
  have hlen : ((t.data.toList.zip u.data.toList).map fun x => arith.eval x.1 x.2).length =
      t.data.size := by
    have h₁ := ht.full.2
    have h₂ := hu.full.2
    simp only [List.length_map, List.length_zip, Array.length_toList]
    omega
  refine ⟨_, ?_, .of_list hc (by rw [hlen]; exact ht.full.2) fun idx hidx => ?_⟩
  · rw [zipTensors, hmap, Option.bind_eq_bind, Option.bind_some, if_pos hlen, ht.full.1]
  · rw [← ht.getElem? hc hidx, ← hu.getElem? hc hidx, List.getElem?_map, ← Array.getElem?_toList,
      ← Array.getElem?_toList, List.zip_eq_zipWith, List.getElem?_zipWith]
    cases t.data.toList[(flatten dims idx).toNat]? <;>
      cases u.data.toList[(flatten dims idx).toNat]? <;> rfl

/-- Combining a scalar with every element. -/
theorem scaleTensor_spec (hc : Shape.count dims ≤ 0x8000000000000000) (ht : t.Holds [] f)
    (hu : u.Holds dims g) {op : NodeKind} {combine : α → α → α}
    (hop : ∀ a b : α, applyOp op a b = some (combine a b)) :
    ∃ v, scaleTensor op t u = some v ∧
      v.Holds dims fun idx => (f []).bind fun x => (g idx).bind fun y => some (combine x y) := by
  have hscalar := ht.getElem? (by decide) .nil
  rw [flatten_nil, Int.toNat_zero] at hscalar
  have hsize := ht.full.2
  rw [Shape.count_nil] at hsize
  have hval := Array.getElem?_eq_getElem (show 0 < t.data.size by omega)
  rw [hval] at hscalar
  have hmap := mapM_eq_some_map (l := u.data.toList) fun x _ => hop t.data[0] x
  have hlen : ((u.data.toList.map (combine t.data[0])).length : Int) = Shape.count dims := by
    rw [List.length_map]
    exact hu.length_toList
  refine ⟨_, ?_, .of_list hc hlen fun idx hidx => ?_⟩
  · rw [scaleTensor, hval, Option.bind_eq_bind, Option.bind_some, hmap, Option.bind_eq_bind,
      Option.bind_some, hu.full.1]
  · rw [← hscalar, ← hu.getElem? hc hidx, List.getElem?_map, ← Array.getElem?_toList]
    cases u.data.toList[(flatten dims idx).toNat]? <;> rfl

theorem fillTensor_eq (hK : K.Bounded) (hdims : K.Mem dims) {β : Type} {data : List β}
    (hlen : (data.length : Int) = Shape.count dims) :
    fillTensor dims data = some ⟨dims, data.toArray⟩ :=
  if_pos ⟨hK.size_eq hdims ▸ hK hdims, (hK.size_eq hdims).trans hlen.symm⟩

/-- The position of an index among blocks. -/
theorem flatten_append_toNat {ds is ds' is' : List Int} (h : InRange ds is) (h' : InRange ds' is')
    {n : Nat} (hn : (n : Int) = Shape.count ds') : (flatten (ds ++ ds') (is ++ is')).toNat =
      (flatten ds is).toNat * n + (flatten ds' is').toNat := by
  have h₁ := (flatten_bounds h).1
  have h₂ := (flatten_bounds h').1
  rw [flatten_append h, ← hn, Int.toNat_add (Int.mul_nonneg h₁ (Int.natCast_nonneg n)) h₂,
    Int.toNat_mul h₁ (Int.natCast_nonneg n), Int.toNat_natCast]

/-- The outer product. -/
theorem outerTensor_spec (hK : K.Bounded) (hdims : K.Mem (dims ++ dims'))
    (hc : Shape.count dims ≤ 0x8000000000000000) (hc' : Shape.count dims' ≤ 0x8000000000000000)
    (ht : t.Holds dims f) (hu : u.Holds dims' g) :
    ∃ v, outerTensor t u = some v ∧ v.Holds (dims ++ dims') fun idx =>
      (f (idx.take dims.length)).bind fun x => (g (idx.drop dims.length)).bind fun y => some (x * y) := by
  have hblock : ∀ x ∈ t.data.toList, (u.data.toList.map (x * ·)).length = u.data.toList.length :=
    fun _ _ => List.length_map _
  have hlen : ((t.data.toList.flatMap fun a => u.data.toList.map (a * ·)).length : Int) =
      Shape.count (dims ++ dims') := by
    rw [length_flatMap_const hblock, Int.natCast_mul, ht.length_toList, hu.length_toList,
      Shape.count_append]
  refine ⟨_, ?_, .of_list (hK.count_le_word hdims) hlen fun idx hidx => ?_⟩
  · rw [outerTensor, ht.full.1, hu.full.1, fillTensor_eq hK hdims hlen]
  · have hsplit := hidx.length_eq
    rw [List.length_append] at hsplit
    have htake : InRange dims (idx.take dims.length) := by simpa using hidx.take dims.length
    have hdrop : InRange dims' (idx.drop dims.length) := by simpa using hidx.drop dims.length
    conv_lhs => rw [← List.take_append_drop dims.length idx]
    have hb := flatten_bounds hdrop
    have hlen' := hu.length_toList
    rw [flatten_append_toNat htake hdrop hlen', getElem?_flatMap hblock _ (by omega),
      ← ht.getElem? hc htake, ← hu.getElem? hc' hdrop, ← Array.getElem?_toList,
      ← Array.getElem?_toList]
    simp only [List.getElem?_map]
    cases t.data.toList[(flatten dims (idx.take dims.length)).toNat]? <;>
      cases u.data.toList[(flatten dims' (idx.drop dims.length)).toNat]? <;> rfl

omit [Scalar α] in
/-- Stacking tensors. -/
theorem stackTensors_spec (hK : K.Bounded) {ts : List (Tensor α)} {fs : List (List Int → Option α)}
    (hne : ts ≠ []) (hdims : K.Mem ((ts.length : Int) :: dims))
    (hc : Shape.count dims ≤ 0x8000000000000000)
    (h : List.Forall₂ (fun t f => Tensor.Holds t dims f) ts fs) :
    ∃ v, stackTensors ts = some v ∧ v.Holds ((ts.length : Int) :: dims) fun idx =>
      match idx with
      | [] => none
      | i :: idx => (at? fs i).bind fun f => f idx := by
  cases ts with
  | nil => exact absurd rfl hne
  | cons t ts =>
    have hfull : ∀ u ∈ t :: ts, u.Full dims := by
      intro u hu
      obtain ⟨i, hi⟩ := List.mem_iff_getElem?.mp hu
      obtain ⟨f, -, hf⟩ := forall₂_getElem? h hi
      exact hf.full
    have hblock : ∀ u ∈ t :: ts, u.flat.length = t.data.size := by
      intro u hu
      have h₁ := (hfull u hu).2
      have h₂ := (hfull t (.head _)).2
      rw [Tensor.flat, Array.length_toList]
      omega
    have hlen : (((t :: ts).flatMap Tensor.flat).length : Int) =
        Shape.count (((t :: ts).length : Int) :: dims) := by
      rw [length_flatMap_const hblock, Int.natCast_mul, (hfull t (.head _)).2, Shape.count_cons]
    refine ⟨_, ?_, .of_list (hK.count_le_word hdims) hlen fun idx hidx => ?_⟩
    · rw [stackTensors, (hfull t (.head _)).1]
      exact fillTensor_eq hK hdims hlen
    · cases hidx with
      | @cons i _ _ idx lo hi hidx =>
        obtain ⟨k, rfl⟩ := Int.eq_ofNat_of_zero_le lo
        have hk : k < (t :: ts).length := by exact_mod_cast hi
        have hget := List.getElem?_eq_getElem hk
        obtain ⟨f, hf, hholds⟩ := forall₂_getElem? h hget
        have hb := flatten_bounds hidx
        have hsize := (hfull t (.head _)).2
        have hpos : (flatten (((t :: ts).length : Int) :: dims) ((k : Int) :: idx)).toNat =
            k * t.data.size + (flatten dims idx).toNat := by
          rw [flatten_cons, ← hsize]
          omega
        show _ = (at? fs (k : Int)).bind fun f => f idx
        rw [hpos, getElem?_flatMap hblock k (by omega), hget, Option.bind_some, at?_natCast, hf,
          Option.bind_some, ← hholds.getElem? hc hidx, Tensor.flat, Array.getElem?_toList]

/-! ## Expressions -/

/-- The value of an expression is the tensor of the values of its tree. -/
def Expr.Evaluates (mem : Memory α) (e : Expr) (sh : Shape) : Prop :=
  ∃ t, e.eval mem = some t ∧ t.Holds sh (e.tree.eval (cellsOf mem))

variable {s : Scope} {S : Shapes} {mem : Memory α}

/-- One element of a contraction is the value of a contraction node. -/
theorem contractAt_eq {id : NodeId} {n : Node} {x y : Tree} {idx : List Int}
    (ht : t.Holds x.shape (x.eval (cellsOf mem))) (hu : u.Holds y.shape (y.eval (cellsOf mem)))
    (hkind : n.kind = .contraction) (htyped : (Tree.node id n [x, y]).Typed K.Admits S)
    (hidx : InRange n.shape idx) :
    contractAt t n.lhsAxes u n.rhsAxes idx = (Tree.node id n [x, y]).eval (cellsOf mem) idx := by
  obtain ⟨es, hes, hpos⟩ := htyped.contractedExtents K.admits_nonneg hkind
  have hleaf : n.kind.isLeaf = false := by rw [hkind]; rfl
  have hx : x.Typed K.Admits S := by
    cases htyped with
    | node _ _ hts => exact hts x (by simp)
  have hy : y.Typed K.Admits S := by
    cases htyped with
    | node _ _ hts => exact hts y (by simp)
  have hsummed := hes
  rw [Tree.contractedExtents_eq hx] at hsummed
  rw [Tree.eval_contraction hkind hes hpos, contractAt, ht.full.1, hsummed, Option.bind_eq_bind,
    Option.bind_some, forEach_eq_foldlM hpos]
  refine Tree.foldlM_congr (fun sum k hk => ?_) 0
  have hcon : n.kind = .contraction → ∃ es, InRange es k ∧ n.contractedExtents [x, y] = some es :=
    fun _ => ⟨es, mem_indices.mp hk, hes⟩
  obtain ⟨ops, hops, hin⟩ := htyped.operandIndices hleaf hidx hcon
  obtain ⟨i₀, i₁, hpair⟩ := htyped.operandIndices_pair hleaf hidx hcon
  rw [hops] at hpair
  cases hpair
  obtain ⟨hin₀, hin₁⟩ : InRange x.shape i₀ ∧ InRange y.shape i₁ := by simpa using hin
  rw [Tree.termWith_eq hops, ← ht.get i₀ hin₀, ← hu.get i₁ hin₁]
  simp only [Node.operandIndices, hkind, List.map_cons, List.map_nil, hx.rank?, hy.rank?,
    List.getElem?_cons_zero, List.getElem?_cons_succ, Option.join_some, Option.bind_eq_bind,
    Option.bind_some, Option.bind_eq_some_iff, Option.some.injEq, List.cons.injEq, and_true,
    Prod.exists] at hops
  obtain ⟨lhs, free, hlhs, rhs, rest, hrhs, rfl, rfl⟩ := hops
  rw [hu.full.1, hlhs]
  simp only [Option.bind_eq_bind, Option.bind_some, hrhs, Option.pure_def]
  cases t.get? lhs <;> cases u.get? rhs <;> rfl

theorem evalAll_eq {es : List Expr} {sh : Shape} (h : ∀ e ∈ es, e.Evaluates mem sh) :
    ∃ ts, Expr.evalAll mem es = some ts ∧
      List.Forall₂ (fun t f => Tensor.Holds t sh f) ts
        (es.map fun e => e.tree.eval (cellsOf mem)) := by
  induction es with
  | nil => exact ⟨[], rfl, .nil⟩
  | cons e es ih =>
    obtain ⟨t, ht, hholds⟩ := h e (.head _)
    obtain ⟨ts, hts, hall⟩ := ih fun e he => h e (List.mem_cons_of_mem _ he)
    exact ⟨t :: ts, by simp [Expr.evalAll, ht, hts], .cons hholds hall⟩

section

variable {x y : Expr}

theorem Expr.eval_binary {op : NodeKind} : (Expr.binary op x y).eval mem =
    (x.eval mem).bind fun t => (y.eval mem).bind fun u => zipTensors op t u := rfl

theorem Expr.eval_scale {op : NodeKind} : (Expr.scale op y x).eval mem =
    (y.eval mem).bind fun t => (x.eval mem).bind fun u => scaleTensor op t u := rfl

theorem Expr.eval_product : (Expr.product x y).eval mem =
    (x.eval mem).bind fun t => (y.eval mem).bind fun u => outerTensor t u := rfl

theorem Expr.eval_contract {ls rs : List Int} : (Expr.contract x ls y rs).eval mem =
    (x.eval mem).bind fun t => (y.eval mem).bind fun u => contractTensor t ls u rs := rfl

theorem Expr.eval_stack {ms : List Expr} :
    (Expr.stack ms).eval mem = (Expr.evalAll mem ms).bind stackTensors := rfl

theorem Expr.eval_transpose {pairs : List Swap} :
    (Expr.transpose x pairs).eval mem = (x.eval mem).bind fun t => transposeTensor t pairs := rfl

end

namespace Expr.Evaluates

variable {x y c : Expr} {xs ys sh : Shape} {op : NodeKind}

theorem ident {d : Shape} (name : String) (hS : S name = some d) (hmem : mem.Fits S) :
    (Expr.ident name d).Evaluates mem d := by
  obtain ⟨t, ht, hfull⟩ := hmem name d hS
  refine ⟨t, ht, hfull, fun idx _ => ?_⟩
  rw [Expr.tree, Tree.eval_ident rfl, loadAt, Node.subscript]
  simp [cellsOf, ht]

theorem const (v : Float) : (Expr.const v).Evaluates mem [] := by
  refine ⟨_, rfl, ⟨rfl, rfl⟩, fun idx hidx => ?_⟩
  cases hidx
  rfl

theorem binary (hop : op.isElementwise) (hc : Shape.count sh ≤ 0x8000000000000000)
    (hx : x.Evaluates mem sh) (hy : y.Evaluates mem sh) : (Expr.binary op x y).Evaluates mem sh := by
  obtain ⟨t, ht, hholds⟩ := hx
  obtain ⟨u, hu, hholds'⟩ := hy
  obtain ⟨arith, harith, -⟩ := applyOp_eq (α := α) (.inl hop)
  obtain ⟨v, hv, hval⟩ := zipTensors_spec hc hholds hholds' hop harith
  refine ⟨v, by simp [Expr.eval_binary, ht, hu, hv], hval.congr fun idx _ => ?_⟩
  exact (Tree.eval_arith harith (Node.operandIndices_elementwise hop _ idx [])).symm

theorem scale (hop : op.isScalar) (hcount : Shape.count sh ≤ 0x8000000000000000)
    (hc : c.Evaluates mem []) (hx : x.Evaluates mem sh) : (Expr.scale op c x).Evaluates mem sh := by
  obtain ⟨t, ht, hholds⟩ := hc
  obtain ⟨u, hu, hholds'⟩ := hx
  by_cases hdiv : op = .scalarDiv
  · subst hdiv
    obtain ⟨v, hv, hval⟩ := scaleTensor_spec hcount hholds hholds'
      fun a b => (rfl : applyOp .scalarDiv a b = some (b / a))
    refine ⟨v, by simp [Expr.eval_scale, ht, hu, hv], hval.congr fun idx _ => ?_⟩
    rw [Expr.tree, if_pos rfl, Tree.eval_arith (rfl : NodeKind.scalarDiv.arith? = some .div) rfl]
    cases c.tree.eval (cellsOf mem) [] <;> cases x.tree.eval (cellsOf mem) idx <;> rfl
  · obtain rfl : op = .scalarMul := by cases op <;> simp_all [NodeKind.isScalar]
    obtain ⟨v, hv, hval⟩ := scaleTensor_spec hcount hholds hholds'
      fun a b => (rfl : applyOp .scalarMul a b = some (a * b))
    refine ⟨v, by simp [Expr.eval_scale, ht, hu, hv], hval.congr fun idx _ => ?_⟩
    rw [Expr.tree, if_neg hdiv, Tree.eval_arith (rfl : NodeKind.scalarMul.arith? = some .mul) rfl]
    rfl

theorem product (hK : K.Bounded) (hmemK : K.Mem (xs ++ ys)) (hcx : Shape.count xs ≤ 0x8000000000000000)
    (hcy : Shape.count ys ≤ 0x8000000000000000) (hrank : x.tree.rank? = some xs.length)
    (hx : x.Evaluates mem xs) (hy : y.Evaluates mem ys) : (Expr.product x y).Evaluates mem (xs ++ ys) := by
  obtain ⟨t, ht, hholds⟩ := hx
  obtain ⟨u, hu, hholds'⟩ := hy
  obtain ⟨v, hv, hval⟩ := outerTensor_spec hK hmemK hcx hcy hholds hholds'
  refine ⟨v, by simp [Expr.eval_product, ht, hu, hv], hval.congr fun idx hidx => ?_⟩
  have hlen := hidx.length_eq
  rw [List.length_append] at hlen
  rw [Expr.tree, Tree.eval_arith (rfl : NodeKind.product.arith? = some .mul)]
  · rfl
  · simp [Node.operandIndices, hrank, hlen]

theorem contract {ls rs : List Int} (hK : K.Bounded) (hmemK : K.Mem (xs.remove ls ++ ys.remove rs))
    (hxs : x.tree.shape = xs) (hys : y.tree.shape = ys)
    (hshape : (Expr.contract x ls y rs).tree.shape = xs.remove ls ++ ys.remove rs)
    (htyped : (Expr.contract x ls y rs).tree.Typed K.Admits S) (hmem : mem.Fits S) (hcount : S.Countable)
    (hx : x.Evaluates mem xs) (hy : y.Evaluates mem ys) :
    (Expr.contract x ls y rs).Evaluates mem (xs.remove ls ++ ys.remove rs) := by
  obtain ⟨t, ht, hholds⟩ := hx
  obtain ⟨u, hu, hholds'⟩ := hy
  rw [← hxs] at hholds
  rw [← hys] at hholds'
  have hvalue : ∀ idx, InRange (xs.remove ls ++ ys.remove rs) idx →
      contractAt t ls u rs idx = (Expr.contract x ls y rs).tree.eval (cellsOf mem) idx := by
    intro idx hidx
    rw [Expr.tree] at hshape htyped ⊢
    exact contractAt_eq hholds hholds' rfl htyped (by rwa [← hshape] at hidx)
  obtain ⟨v, hv, hfull, hget⟩ := Tensor.tabulate_spec hK hmemK (f := contractAt t ls u rs)
    fun idx hidx => by
      rw [hvalue idx hidx]
      exact hmem.eval_isSome K.sized hcount htyped (by rwa [hshape])
  refine ⟨v, ?_, hfull, fun idx hidx => (hget idx hidx).trans (hvalue idx hidx)⟩
  rw [Expr.eval_contract, ht, hu]
  simp only [Option.bind_some, contractTensor, hholds.full.1, hholds'.full.1, hxs, hys, hv]

theorem stack {m : Expr} {ms : List Expr} (hK : K.Bounded)
    (hmemK : K.Mem (((ms.length + 1 : Nat) : Int) :: sh)) (hc : Shape.count sh ≤ 0x8000000000000000)
    (hms : ∀ e ∈ m :: ms, e.Evaluates mem sh) :
    (Expr.stack (m :: ms)).Evaluates mem (((ms.length + 1 : Nat) : Int) :: sh) := by
  obtain ⟨ts, hts, hall⟩ := evalAll_eq hms
  have hlen : ts.length = ms.length + 1 := by simpa using hall.length_eq
  have hne : ts ≠ [] := by
    rintro rfl
    cases hlen
  obtain ⟨v, hv, hval⟩ := stackTensors_spec hK hne (hlen ▸ hmemK) hc hall
  rw [hlen] at hval
  refine ⟨v, by simp [Expr.eval_stack, hts, hv], hval.congr fun idx hidx => ?_⟩
  cases hidx with
  | @cons i _ _ idx lo hi hidx =>
    obtain ⟨k, rfl⟩ := Int.eq_ofNat_of_zero_le lo
    have hk : k < (m :: ms).length := by exact_mod_cast hi
    have hget := List.getElem?_eq_getElem hk
    show (at? _ (k : Int)).bind _ = _
    rw [at?_natCast, List.getElem?_map, hget, Option.map_some, Option.bind_some, Expr.tree,
      Tree.eval_stack (t := (m :: ms)[k].tree) rfl]
    rw [at?_natCast, Expr.trees_eq, List.getElem?_map, hget, Option.map_some]

theorem transpose {pairs : List Swap} (hK : K.Bounded) (hmemK : K.Mem xs)
    (hfwd : forward pairs xs = some sh) (hx : x.Evaluates mem xs) :
    (Expr.transpose x pairs).Evaluates mem sh := by
  obtain ⟨t, ht, hholds⟩ := hx
  have hback : ∀ idx, InRange sh idx → ∃ idx', backward pairs idx = some idx' ∧ InRange xs idx' :=
    fun idx hidx => hidx.backward (backward_eq_some_of_forward hfwd)
  obtain ⟨v, hv, hfull, hget⟩ := Tensor.tabulate_spec hK (K.perm hmemK (perm_forward hfwd))
    (f := fun idx => do t.get? (← backward pairs idx)) fun idx hidx => by
      obtain ⟨idx', hidx', hin⟩ := hback idx hidx
      simpa [hidx'] using hholds.full.get?_isSome (hK.count_le_word hmemK) hin
  refine ⟨v, ?_, hfull, fun idx hidx => ?_⟩
  · simp only [Expr.eval_transpose, ht, transposeTensor, hholds.full.1, Shape.permute, hfwd,
      Option.bind_eq_bind, Option.bind_some]
    exact hv
  · obtain ⟨idx', hidx', hin⟩ := hback idx hidx
    rw [hget idx hidx, Expr.tree, Tree.eval_transposition rfl hidx', hidx', Option.bind_eq_bind,
      Option.bind_some, hholds.get idx' hin]

end Expr.Evaluates

/-- An expression that obeys the shape rules has a value: the tensor of the values of its tree. -/
theorem Expr.Shaped.eval_spec (hK : K.Bounded) {e : Expr} {sh : Shape} (h : e.Shaped K s sh)
    (hS : ∀ name d, s.find? name = some d → S name = some d.shape) (hmem : mem.Fits S)
    (hcount : S.Countable) : e.Evaluates mem sh := by
  have hword : ∀ {e : Expr} {sh : Shape}, e.Shaped K s sh → Shape.count sh ≤ 0x8000000000000000 :=
    fun h => hK.count_le_word h.mem
  induction h with
  | ident hd _ _ => exact .ident _ (hS _ _ hd) hmem
  | const _ => exact .const _
  | binary hop hx _ ihx ihy => exact .binary hop (hword hx) ihx ihy
  | scale hop _ hx ihc ihx => exact .scale hop (hword hx) ihc ihx
  | product hx hy hmemK ihx ihy =>
    refine .product hK hmemK (hword hx) (hword hy) ?_ ihx ihy
    rw [(hx.typed hS).2.rank?, hx.tree_shape]
  | contract hx hy hls hrs hmemK ihx ihy =>
    obtain ⟨hshape, htyped⟩ := (Expr.Shaped.contract hx hy hls hrs hmemK).typed hS
    exact .contract hK hmemK hx.tree_shape hy.tree_shape hshape htyped hmem hcount ihx ihy
  | stack hms hmemK ih => exact .stack hK hmemK (hword (hms _ (.head _))) ih
  | transpose hx hfwd ih => exact .transpose hK hx.mem hfwd ih
  | shared _ ih => exact ih

/-! ## Statements -/

omit [Scalar α] in
/-- Writing a tensor through swaps of the axes of the destination. -/
theorem writeThrough_spec {perm : List Swap} {stored sh : Shape} (hfwd : forward perm stored = some sh)
    (hpos : ∀ d ∈ stored, 0 < d) (hc : Shape.count stored ≤ 0x8000000000000000)
    (ht : t.Holds sh f) (hu : u.Full stored) :
    ∃ v, writeThrough perm t u = some v ∧ v.Full stored ∧
      ∀ sub idx, InRange stored sub → forward perm sub = some idx → v.get? sub = f idx := by
  have hperm := perm_forward hfwd
  have hposh : ∀ d ∈ sh, 0 < d := fun d hd => hpos d (hperm.mem_iff.mp hd)
  have hcsh : Shape.count sh ≤ 0x8000000000000000 := Shape.count_perm hperm ▸ hc
  rw [writeThrough, ht.full.1, forEach_eq_foldlM fun d hd => Int.le_of_lt (hposh d hd)]
  have hfold := foldlM_invariant (l := indices sh) (s := u)
    (f := fun (dst : Tensor α) idx => do dst.set? (← backward perm idx) (← t.get? idx))
    (fun done v => v.Full stored ∧ ∀ sub idx, InRange stored sub → forward perm sub = some idx →
      idx ∈ done → v.get? sub = f idx)
    ⟨hu, by simp⟩ (fun done idx rest v hindices ⟨hfull, hdone⟩ => by
      have hidx : InRange sh idx := mem_indices.mp (hindices ▸ by simp)
      obtain ⟨sub, hsub, hin⟩ := hidx.backward (backward_eq_some_of_forward hfwd)
      obtain ⟨x, hx⟩ := Option.isSome_iff_exists.mp (ht.full.get?_isSome hcsh hidx)
      obtain ⟨v', hset, hfull', hget⟩ := hfull.set?_spec hc hin x
      refine ⟨v', by simp [hsub, hx, hset], hfull', fun sub' idx' hin' hfwd' hmem => ?_⟩
      rw [hget sub' hin']
      split
      · rename_i heq
        subst heq
        rw [backward_eq_some_iff.mp hsub] at hfwd'
        cases hfwd'
        rw [← hx, ht.get idx hidx]
      · rename_i hne
        refine hdone sub' idx' hin' hfwd' ((List.mem_append.mp hmem).resolve_right fun hlast => hne ?_)
        rw [List.mem_singleton.mp hlast] at hfwd'
        rw [backward_eq_some_of_forward hfwd'] at hsub
        exact Option.some.inj hsub)
  obtain ⟨v, hrun, hfull, hget⟩ := hfold
  refine ⟨v, hrun, hfull, fun sub idx hin hidx => hget sub idx hin hidx (mem_indices.mpr ?_)⟩
  obtain ⟨idx', hidx', hin'⟩ := hin.forward hfwd
  rw [hidx] at hidx'
  cases hidx'
  exact hin'

/-- A statement does to a memory what its clause does to the cells. -/
theorem Stmt.eval_spec (hK : K.Bounded) {s : Scope} {st : Stmt} (h : s.Assigns K st)
    (hcount : (Symbols.shapes s.find?).Countable) {mem : Memory α}
    (hmem : mem.Fits (Symbols.shapes s.find?)) :
    ∃ mem', st.eval mem = some mem' ∧ mem'.Fits (Symbols.shapes s.find?) ∧ mem'.keys = mem.keys ∧
      Cells.Agree (Symbols.shapes s.find?) (cellsOf mem')
        ((st.clause s.find?).step (cellsOf mem)) := by
  obtain ⟨d, sh, hd, -, hfwd, hshaped⟩ := h
  have hS := Symbols.shapes_eq hd
  have hpos : ∀ e ∈ d.shape, 0 < e := fun e he =>
    K.pos hshaped.mem e ((perm_forward hfwd).mem_iff.mpr he)
  have hc := hcount st.dst d.shape hS
  obtain ⟨t, ht, hholds⟩ := hshaped.eval_spec hK (fun name d hd => Symbols.shapes_eq hd) hmem hcount
  obtain ⟨u, hu, hufull⟩ := hmem st.dst d.shape hS
  obtain ⟨v, hv, hvfull, hget⟩ := writeThrough_spec hfwd hpos hc hholds hufull
  rcases mem.change?_cases st.dst (writeThrough st.perm t) with
    ⟨-, hnone⟩ | ⟨u', v', mem', hu', hv', hch, hkeys, hget'⟩
  · rw [hu, Option.bind_some, hv] at hnone
    cases hnone
  · rw [hu] at hu'
    cases hu'
    rw [hv] at hv'
    cases hv'
    have htarget : (st.clause s.find?).target =
        { kind := .identifier, name := st.dst, shape := sh, perm := st.perm } := by
      simp [Stmt.clause, Stmt.target, hd, hfwd]
    refine ⟨mem', by simp [Stmt.eval, ht, hch], fun name stored hname => ?_, hkeys,
      fun name stored sub hname hsub => ?_⟩
    · by_cases heq : name = st.dst
      · subst heq
        rw [hS] at hname
        cases hname
        exact ⟨v, by rw [hget', if_pos rfl], hvfull⟩
      · obtain ⟨w, hw, hfull⟩ := hmem name stored hname
        exact ⟨w, by rw [hget', if_neg heq, hw], hfull⟩
    · rw [cellsOf, hget']
      by_cases heq : name = st.dst
      · subst heq
        rw [hS] at hname
        cases hname
        obtain ⟨idx, hidx, hin⟩ := hsub.forward hfwd
        have hown : (st.clause s.find?).target.own? sub = some idx := by
          rw [htarget, Node.own?_eq_some_iff, Node.subscript, List.map_nil, List.nil_append]
          exact ⟨backward_eq_some_of_forward hidx, hin⟩
        rw [if_pos rfl, Option.bind_eq_bind, Option.bind_some, hget sub idx hsub hidx]
        exact (Clause.step_own hown (cellsOf mem)).symm
      · rw [if_neg heq, Clause.step_of_ne heq]
        rfl

theorem evalStmts_spec (hK : K.Bounded) {s : Scope} {stmts : List Stmt} (h : s.Runs K stmts)
    (hcount : (Symbols.shapes s.find?).Countable) {σ : Cells α} {mem : Memory α}
    (hmem : mem.Fits (Symbols.shapes s.find?))
    (hcells : Cells.Agree (Symbols.shapes s.find?) (cellsOf mem) σ) :
    ∃ mem', evalStmts mem stmts = some mem' ∧ mem'.Fits (Symbols.shapes s.find?) ∧
      mem'.keys = mem.keys ∧ Cells.Agree (Symbols.shapes s.find?) (cellsOf mem')
        (runClauses (stmts.map (Stmt.clause s.find?)) σ) := by
  induction stmts generalizing s σ mem with
  | nil => exact ⟨mem, rfl, hmem, rfl, hcells⟩
  | cons st rest ih =>
    obtain ⟨mem₁, hrun₁, hmem₁, hkeys₁, hcells₁⟩ := st.eval_spec hK h.1 hcount hmem
    obtain ⟨mem₂, hrun₂, hmem₂, hkeys₂, hcells₂⟩ :=
      ih h.2 hcount hmem₁ (hcells₁.trans (hcells.step K.sized h.1.fits))
    exact ⟨mem₂, by rw [evalStmts, hrun₁]; exact hrun₂, hmem₂, hkeys₂.trans hkeys₁, hcells₂⟩

end Typed

end LoopNest
