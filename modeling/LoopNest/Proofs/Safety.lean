import LoopNest.Proofs.Correctness
import LoopNest.Proofs.Tracing

/-!
# Safety of lowered programs

The interpreter computes every index that it needs and stays in bounds, coordinate by coordinate, in
all that a lowered program loads and stores (`interpret_inBounds`). Row-major positions do not tell
one coordinate from another, so this is said of subscripts. No tensor needs to fit in an array.
-/

namespace LoopNest

/-- An access of a declared tensor at a subscript in the range of its shape. -/
def Event.InBounds (S : Shapes) : Event → Prop
  | .load name sub | .store name sub => ∃ stored, S name = some stored ∧ InRange stored sub
  | .stuck => False

namespace Traced

variable {β γ σ : Type} {P : Event → Prop} {x : Traced β} {f : β → Traced γ}

/-- All that happens in a computation satisfies `P`. -/
def Only (P : Event → Prop) (x : Traced β) : Prop := ∀ e ∈ x.events, P e

theorem demand_bind {o : Option β} {b : β} (h : o = some b) (f : β → Traced γ) :
    demand o >>= f = f b := by
  rw [h]
  rfl

namespace Only

theorem pure (b : β) : Only P (pure b) := nofun

theorem lift (r : Except Failure β) : Only P (lift r) := nofun

theorem access {e : Event} (he : P e) (o : Option β) : Only P (access e o) :=
  fun _ h => List.mem_singleton.mp h ▸ he

theorem bind (hx : Only P x) (hf : ∀ b, Only P (f b)) : Only P (x >>= f) := by
  obtain ⟨result, events⟩ := x
  cases result with
  | error => exact hx
  | ok b =>
    intro e he
    rcases List.mem_append.mp he with he | he
    · exact hx e he
    · exact hf b e he

theorem inContext (f : Diagnostic → Diagnostic) (hx : Only P x) : Only P (inContext f x) := hx

theorem loop {f : Int → σ → Traced σ} {n : Nat} {start : Int}
    (h : ∀ i s, start ≤ i → i < start + n → Only P (f i s)) (s : σ) :
    Only P (loop n start f s) := by
  induction n generalizing start s with
  | zero => exact .pure s
  | succ n ih =>
    apply bind (h start s (Int.le_refl _) (by omega))
    apply ih
    intro i s lo hi
    exact h i s (by omega) (by omega)

theorem forEach {dims : List Int} (hpos : ∀ d ∈ dims, 0 < d) {f : List Int → σ → Traced σ}
    (h : ∀ idx s, InRange dims idx → Only P (f idx s)) (s : σ) : Only P (forEach dims f s) := by
  have hfrom : ∀ s, Only P (forEachFrom dims f s) := by
    induction dims generalizing f with
    | nil => exact fun s => h [] s .nil
    | cons d dims ih =>
      have hd := hpos d (.head _)
      apply loop
      intro i s lo hi
      apply ih fun d' hd' => hpos d' (List.mem_cons_of_mem _ hd')
      intro idx s hidx
      exact h (i :: idx) s (.cons lo (by omega) hidx)
  rw [Traced.forEach]
  split
  · exact .pure s
  · exact hfrom s

end Only

end Traced

open Traced (Only demand demand_bind)

variable {α : Type} [Scalar α]

/-! ## Expressions -/

section

variable {C : Node → Prop} {S : Shapes} {cells : Cells α} {n : Node} {stored : Shape} {idx : List Int}

omit [Scalar α] in
theorem Node.Views.loadTraced_only (h : n.Views stored) (hS : S n.name = some stored)
    (hidx : InRange n.shape idx) : Only (Event.InBounds S) (loadTraced cells n idx) := by
  obtain ⟨sub, hsub, hin⟩ := h.subscript_inRange hidx
  rw [loadTraced, demand_bind hsub]
  exact .access ⟨stored, hS, hin⟩ _

omit [Scalar α] in
theorem Node.Views.storeTraced_only (h : n.Views stored) (hS : S n.name = some stored)
    (hidx : InRange n.shape idx) (mem : Memory α) (v : α) :
    Only (Event.InBounds S) (storeTraced mem n idx v) := by
  obtain ⟨sub, hsub, hin⟩ := h.subscript_inRange hidx
  rw [storeTraced, demand_bind hsub]
  exact .access ⟨stored, hS, hin⟩ _

/-- The kinds that compute with two operands do so in the same way. -/
theorem Node.evalTraced_arith {op : ArithOp} (hop : n.kind.arith? = some op) (operands : List Tree)
    (values : List (List Int → Traced α)) (idx : List Int) :
    n.evalTraced cells operands values idx = (do
      let ops ← demand (n.operandIndices (operands.map Tree.rank?) idx [])
      let x ← (← demand values[0]?) (← demand ops[0]?)
      let y ← (← demand values[1]?) (← demand ops[1]?)
      return op.eval x y) := by
  unfold Node.evalTraced
  cases hk : n.kind
  case identifier | constant | contraction | stack | transposition => cases hk ▸ hop
  all_goals exact demand_bind (hk ▸ hop) _

namespace Tree

theorem evalAllTraced_eq_map (cells : Cells α) (ts : List Tree) :
    evalAllTraced cells ts = ts.map (evalTraced cells) := by
  induction ts with
  | nil => rfl
  | cons t ts ih => rw [evalAllTraced, ih, List.map_cons]

/-- The accesses of some trees are in bounds at every index of theirs. -/
def AllInBounds (S : Shapes) (cells : Cells α) (ts : List Tree) : Prop :=
  ∀ t ∈ ts, ∀ idx, InRange t.shape idx → Only (Event.InBounds S) (t.evalTraced cells idx)

/-- Two operands are demanded at indices in range. -/
theorem AllInBounds.pair {β : Type} {t₀ t₁ : Tree} {ops : List (List Int)}
    (h : AllInBounds S cells [t₀, t₁])
    (hops : List.Forall₂ (fun t i => InRange t.shape i) [t₀, t₁] ops) {F : α → α → Traced β}
    (hF : ∀ x y, Only (Event.InBounds S) (F x y)) :
    Only (Event.InBounds S) (do
      let x ← (← demand ([t₀, t₁].map (evalTraced cells))[0]?) (← demand ops[0]?)
      let y ← (← demand ([t₀, t₁].map (evalTraced cells))[1]?) (← demand ops[1]?)
      F x y) := by
  obtain _ | ⟨h₀, _ | ⟨h₁, _ | _⟩⟩ := hops
  apply Only.bind (h t₀ (by simp) _ h₀)
  intro x
  apply Only.bind (h t₁ (by simp) _ h₁)
  exact hF x

/-- The products of a contraction are computed in bounds. -/
theorem Typed.termTraced_only {id : NodeId} {n : Node} {ts : List Tree} {idx k es : List Int}
    (h : (Tree.node id n ts).Typed C S) (hk : n.kind = .contraction)
    (hes : n.contractedExtents ts = some es) (hidx : InRange n.shape idx) (hcon : InRange es k)
    (hts : AllInBounds S cells ts) :
    Only (Event.InBounds S) (n.termTraced ts (ts.map (evalTraced cells)) idx k) := by
  obtain ⟨t₀, t₁, rfl⟩ := h.exists_pair hk
  obtain ⟨ops, hops, hin⟩ := h.operandIndices (by rw [hk]; rfl) hidx fun _ => ⟨es, hcon, hes⟩
  rw [Node.termTraced, demand_bind hops]
  exact hts.pair hin fun x y => .pure (x * y)

/-- A well-shaped tree is evaluated in bounds at every index of its shape. -/
theorem Typed.evalTraced_only {t : Tree} (hpos : ∀ n, C n → ∀ d ∈ n.shape, 0 < d)
    (ht : t.Typed C S) (hidx : InRange t.shape idx) :
    Only (Event.InBounds S) (t.evalTraced cells idx) := by
  induction ht generalizing idx with
  | @node id n ts hC hfits hts ih =>
    have htyped : (Tree.node id n ts).Typed C S := .node hC hfits hts
    have hall : AllInBounds S cells ts := fun t ht idx hidx => ih t ht hidx
    rw [evalTraced, evalAllTraced_eq_map]
    generalize hshapes : ts.map Tree.shape = shapes at hfits
    cases hfits with
    | identifier hk hS hviews =>
      simp only [Node.evalTraced, hk]
      exact hviews.loadTraced_only hS hidx
    | constant hk =>
      simp only [Node.evalTraced, hk]
      exact .pure _
    | elementwise hk | scalarMul hk | scalarDiv hk | product hk =>
      obtain ⟨t₀, t₁, rfl, -, -⟩ := map_eq_pair hshapes
      obtain ⟨op, hop⟩ := NodeKind.exists_arith (k := n.kind) (by simp [hk, NodeKind.isScalar])
      have hplain : n.kind = .contraction →
          ∃ es, InRange es [] ∧ n.contractedExtents [t₀, t₁] = some es := fun h => by
        simp [h, NodeKind.arith?] at hop
      obtain ⟨ops, hops, hin⟩ := htyped.operandIndices (NodeKind.isLeaf_of_arith hop) hidx hplain
      rw [Node.evalTraced_arith hop, demand_bind hops]
      exact hall.pair hin fun x y => .pure (op.eval x y)
    | contraction hk =>
      obtain ⟨es, hes, hespos⟩ := htyped.contractedExtents hpos hk
      simp only [Node.evalTraced, hk, demand_bind hes]
      refine .forEach hespos (fun k sum hcon => ?_) 0
      exact (htyped.termTraced_only hk hes hidx hcon hall).bind fun x => .pure (sum + x)
    | @stack s ops hk hlen hsh hops =>
      rw [shape_node, hsh] at hidx
      cases hidx with
      | @cons i _ _ rest lo hi hrest =>
        have hlts : ts.length = (s :: ops).length := by rw [← hshapes, List.length_map]
        obtain ⟨t, hti⟩ := at?_eq_getElem (l := ts) lo (by rw [hlts]; exact hi)
        obtain ⟨v, hv, rfl⟩ := at?_rel (R := fun t v => evalTraced cells t = v)
          (List.forall₂_map_right_iff.mpr (List.forall₂_same.mpr fun _ _ => rfl)) hti
        simp only [Node.evalTraced, hk, demand_bind hv]
        have hmem := List.mem_of_getElem? (at?_eq_some_iff.mp hti).2
        have hshape : t.shape = s := by
          have hmem' : t.shape ∈ s :: ops := hshapes ▸ List.mem_map_of_mem hmem
          rcases List.mem_cons.mp hmem' with h | h
          · exact h
          · exact hops t.shape h
        exact hall t hmem rest (hshape ▸ hrest)
    | transposition hk hx =>
      obtain ⟨t, rfl, rfl⟩ := map_eq_single hshapes
      obtain ⟨idx', hback, hin⟩ := hidx.backward (backward_eq_some_of_forward hx)
      simp only [Node.evalTraced, hk, demand_bind hback]
      exact hall t (by simp) idx' hin

end Tree

end

/-! ## Programs -/

section

variable {K : ShapeClass} {find : Symbols} {c : Clause}

/-- One element of an assignment is computed and stored in bounds. -/
theorem Clause.Fits.runElementTraced_only (h : c.Fits K find) {idx : List Int}
    (hidx : InRange c.target.shape idx) (mem : Memory α) :
    Only (Event.InBounds find.shapes) (Program.runElementTraced c.target c.tree idx mem) := by
  obtain ⟨s, hs, hviews, -⟩ := h.declared
  have hstored := Symbols.shapes_eq hs
  have hexpr := h.shape ▸ hidx
  have htyped := h.typed
  cases htree : c.tree with
  | missing =>
    rw [htree] at htyped
    cases htyped
  | node id n ts =>
    rw [htree] at htyped hexpr
    rw [Program.runElementTraced]
    split
    case isTrue hk =>
      obtain ⟨es, hes, hpos⟩ := htyped.contractedExtents K.admits_pos hk
      apply (hviews.storeTraced_only hstored hidx mem 0).bind
      intro mem
      rw [demand_bind hes]
      refine .forEach hpos (fun k mem hk' => ?_) mem
      have hall : Tree.AllInBounds find.shapes (cellsOf mem) ts := by
        cases htyped with
        | node _ _ hts => exact fun t ht idx hidx => (hts t ht).evalTraced_only K.admits_pos hidx
      rw [Tree.evalAllTraced_eq_map]
      apply (htyped.termTraced_only hk hes hexpr hk' hall).bind
      intro term
      apply (hviews.loadTraced_only hstored hidx).bind
      intro sum
      exact hviews.storeTraced_only hstored hidx mem (sum + term)
    case isFalse =>
      apply (htyped.evalTraced_only K.admits_pos hexpr).bind
      exact hviews.storeTraced_only hstored hidx mem

namespace Program

variable {p : Program} {f : Int}

/-- An assignment accesses its tensors in bounds, at any value of the shared loop. -/
theorem Places.runAssignmentTraced_only {a : Assignment} (h : p.Places a c) (hfits : c.Fits K find)
    (hf : ∀ k ∈ a.fuseAxis, ∃ d, c.target.shape[k]? = some d ∧ 0 ≤ f ∧ f < d) (mem : Memory α) :
    Only (Event.InBounds find.shapes) (p.runAssignmentTraced a f mem) := by
  obtain ⟨order, extents, start, horder, hextents, hstart, hpos, -, hin⟩ := h.loops_spec hfits hf
  rw [runAssignmentTraced, demand_bind h.dst?_eq]
  split
  · exact .lift _
  · rw [demand_bind horder, demand_bind hextents]
    refine Eq.mpr (congrArg _ (demand_bind (b := start) hstart _)) ?_
    refine .forEach hpos (fun loops mem hloops => ?_) mem
    have hvisit := List.mem_map_of_mem (f := fun loops => placeLoops order loops start)
      (mem_indices.mpr hloops)
    rw [h.tree_eq]
    exact hfits.runElementTraced_only ((hin _).mp hvisit).1 mem

theorem runAssignmentsTraced_only {xs : List (Assignment × Clause)}
    (hxs : ∀ x ∈ xs, Executes K p find f x) (i : Nat) (mem : Memory α) :
    Only (Event.InBounds find.shapes) (p.runAssignmentsTraced f i (xs.map Prod.fst) mem) := by
  induction xs generalizing i mem with
  | nil => exact .pure mem
  | cons x xs ih =>
    have hx := hxs x (.head _)
    apply (Only.inContext _ (hx.places.runAssignmentTraced_only hx.fits hx.within mem)).bind
    exact ih (fun y hy => hxs y (List.mem_cons_of_mem _ hy)) (i + 1)

theorem runFusedTraced_only {P : Event → Prop} {n : Nat}
    (h : ∀ i, f ≤ i → i < f + n → ∀ mem : Memory α,
      Only P (p.runAssignmentsTraced i 0 p.assignments mem)) (mem : Memory α) :
    Only P (p.runFusedTraced n f mem) := by
  induction n generalizing f mem with
  | zero => exact .pure mem
  | succ n ih =>
    apply (h f (Int.le_refl _) (by omega) mem).bind
    apply ih
    intro i lo hi
    exact h i (by omega) (by omega)

end Program

/-- A lowered program accesses its tensors in bounds, with or without a shared loop. -/
theorem Lowered.runTraced_only {p : Typed.Program} {r q : Program} {cs : List Clause}
    (h : Lowered K p r q cs) (mem : Memory α) :
    Only (Event.InBounds q.find.shapes) (r.runTraced mem) := by
  have haligned : ∀ c ∈ cs, c.tree.Aligned c.target := fun c hc => (h.direct c hc).aligned
  have hfits := h.stage.sound.fits
  rw [Program.runTraced]
  rcases h.fused with rfl | ⟨extent, axes, rfl, hbound⟩
  · have honly := Program.runAssignmentsTraced_only
      (h.stage.laid.executes h.stage.loops hfits haligned (-1)) 0 mem
    rw [List.map_map] at honly
    rw [h.stage.fusion, h.stage.laid.assignments]
    exact honly
  · apply Program.runFusedTraced_only
    intro i lo hi mem
    rw [Pass.map_fst_boundTo h.stage.laid]
    exact Program.runAssignmentsTraced_only (hbound.executes haligned lo (by omega)) 0 mem

theorem Lowered.interpretTraced_only {p : Typed.Program} {r q : Program} {cs : List Clause}
    (h : Lowered K p r q cs) (inputs : Inputs α) :
    Only (Event.InBounds r.find.shapes) (r.interpretTraced inputs) := by
  rw [h.find_eq, Program.interpretTraced]
  exact (Only.lift _).bind h.runTraced_only

end

/-- All that the interpreter loads and stores when it runs a lowered program is in bounds, and no
index is missing. -/
theorem interpret_inBounds {p : Typed.Program} (hvalid : p.Valid) (hcoh : p.Coherent) (fuse : Bool) :
    ∃ q, lower p fuse = .ok q ∧ ∀ inputs : Inputs α,
      (q.interpretTraced inputs).result = q.interpret inputs ∧
      ∀ e ∈ (q.interpretTraced inputs).events, e.InBounds q.find.shapes := by
  have hp := Typed.Program.Valid.checked hvalid p.within_positive
  obtain ⟨r, q, cs, hlower, h⟩ := lower_spec hvalid hcoh hp fuse
  exact ⟨r, hlower, fun inputs => ⟨r.result_interpretTraced inputs, h.interpretTraced_only inputs⟩⟩

/-- A matrix that is added to its transpose in place is accessed in bounds. -/
theorem interpret_inBounds_symmetrized : symmetrized.Valid ∧ symmetrized.Coherent ∧
    ∃ q, lower symmetrized true = .ok q ∧ ∀ inputs : Inputs Float,
      (q.interpretTraced inputs).result = q.interpret inputs ∧
      ∀ e ∈ (q.interpretTraced inputs).events, e.InBounds q.find.shapes :=
  ⟨symmetrized_valid, symmetrized_coherent,
    interpret_inBounds symmetrized_valid symmetrized_coherent true⟩

/-! ## Element counts -/

/-- An access of a declared tensor at a position below its element count. -/
def Event.Allocated (S : Shapes) : Event → Prop
  | .load name sub | .store name sub => ∃ stored o, S name = some stored ∧
      rowMajor stored sub = some o ∧ 0 ≤ o ∧ o < stored.size
  | .stuck => False

/-- When the elements of all tensors and intermediate results can be counted in a word, those of the
tensors that the passes add can be, too, and the element counts cover what is accessed. -/
theorem interpret_allocated {p : Typed.Program} (hvalid : p.Valid) (hcoh : p.Coherent)
    (hsize : p.Within Typed.countable) (fuse : Bool) :
    ∃ q, lower p fuse = .ok q ∧
      (∀ name stored, q.find.shapes name = some stored → stored.size = Shape.count stored) ∧
      ∀ inputs : Inputs α, ∀ e ∈ (q.interpretTraced inputs).events, e.Allocated q.find.shapes := by
  have hp := Typed.Program.Valid.checked hvalid hsize
  obtain ⟨r, q, cs, hlower, h⟩ := lower_spec hvalid hcoh hp fuse
  have hmem : ∀ name stored, r.find.shapes name = some stored → Typed.countable.Mem stored := by
    intro name stored hS
    rw [h.find_eq, Symbols.shapes, Option.map_eq_some_iff] at hS
    obtain ⟨s, hs, rfl⟩ := hS
    exact h.stage.sound.symbols name s hs
  have hcount : ∀ name stored, r.find.shapes name = some stored → stored.size = Shape.count stored :=
    fun name stored hS => Shape.size_eq_count (hmem name stored hS).1 (hmem name stored hS).2
  refine ⟨r, hlower, hcount, fun inputs e he => ?_⟩
  have hin := h.interpretTraced_only inputs e he
  cases e with
  | load name sub | store name sub =>
    obtain ⟨stored, hS, hsub⟩ := hin
    obtain ⟨lo, hi⟩ := flatten_bounds hsub
    exact ⟨stored, _, hS, rowMajor_eq hsub (Int.le_of_lt (hmem name stored hS).2), lo,
      hcount name stored hS ▸ hi⟩
  | stuck => exact hin

/-- Positive extents alone do not bound the element count: here it leaves the word and is zero. -/
example : Shape.size [4294967296, 4294967296] = 0 := by decide

end LoopNest
