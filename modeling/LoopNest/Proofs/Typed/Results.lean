import LoopNest.Proofs.Index.Visits
import LoopNest.Proofs.Inputs

/-!
# What evaluation returns

When evaluating an expression that obeys the shape rules gives a tensor, the tensor has the shape of
the expression and the elements that this shape asks for (`Shaped.eval_sized`), however many these
are: where an array cannot hold them, there is no tensor. Statements leave every tensor with the
shape of its declaration (`evalStmts_sized`).
-/

namespace LoopNest

variable {α : Type} [Scalar α]

/-- A tensor has a shape and as many elements as the shape asks for, counted in a word. -/
def Tensor.Sized (t : Tensor α) (dims : Shape) : Prop := t.dims = dims ∧ (t.data.size : Int) = dims.size

omit [Scalar α] in
theorem Tensor.Sized.size_eq_count {t : Tensor α} {dims : Shape} (h : t.Sized dims)
    (hpos : ∀ d ∈ dims, 0 < d) (hc : Shape.count dims < 0x8000000000000000) :
    (t.data.size : Int) = Shape.count dims := h.2.trans (Shape.size_eq_count hpos hc)

/-- A memory holds every tensor with the shape of its declaration. -/
def Memory.Sized (S : Shapes) (mem : Memory α) : Prop :=
  ∀ name stored, S name = some stored → ∃ t, mem.get? name = some t ∧ t.Sized stored

namespace Tensor

variable {dims : Shape} {t t' : Tensor α}

omit [Scalar α] in
theorem Sized.set? {sub : List Int} {v : α} (ht : t.Sized dims) (h : t.set? sub v = some t') :
    t'.Sized dims := by
  obtain ⟨_, -, -, rfl⟩ := set?_eq_some_iff.mp h
  exact ⟨ht.1, by simpa using ht.2⟩

theorem zeros_sized (h : zeros dims = some t) : t.Sized dims := by
  rw [zeros, Option.ite_none_right_eq_some] at h
  obtain ⟨hold, heq⟩ := h
  cases heq
  rw [holdsElements, Bool.and_eq_true, decide_eq_true_eq] at hold
  refine ⟨rfl, ?_⟩
  rw [Array.size_replicate, Int.toNat_of_nonneg hold.1]

theorem tabulate_sized {f : List Int → Option α} (h : tabulate dims f = some t) : t.Sized dims := by
  simp only [tabulate, Option.bind_eq_bind, Option.bind_eq_some_iff] at h
  obtain ⟨t₀, hzeros, hrun⟩ := h
  rw [forEach_eq_visits] at hrun
  refine foldlM_preserves (·.Sized dims) (zeros_sized hzeros) (fun u idx _ hu u' hstep => ?_) hrun
  obtain ⟨v, -, hset⟩ := Option.bind_eq_some_iff.mp hstep
  exact hu.set? hset

end Tensor

namespace Typed

variable {K : ShapeClass} {s : Scope} {mem mem' : Memory α} {dims : Shape} {t u v : Tensor α}

/-! ## The operations on tensors -/

omit [Scalar α] in
theorem fillTensor_sized {data : List α} (h : fillTensor dims data = some t) : t.Sized dims := by
  rw [fillTensor, Option.ite_none_right_eq_some] at h
  obtain ⟨⟨-, hlen⟩, heq⟩ := h
  cases heq
  exact ⟨rfl, by rw [List.size_toArray, hlen]⟩

theorem zipTensors_sized {op : NodeKind} (h : zipTensors op t u = some v) (ht : t.Sized dims) :
    v.Sized dims := by
  simp only [zipTensors, Option.bind_eq_bind, Option.bind_eq_some_iff, Option.ite_none_right_eq_some] at h
  obtain ⟨data, -, hlen, heq⟩ := h
  cases heq
  exact ⟨ht.1, by rw [List.size_toArray, hlen, ht.2]⟩

theorem scaleTensor_sized {op : NodeKind} (h : scaleTensor op t u = some v) (hu : u.Sized dims) :
    v.Sized dims := by
  simp only [scaleTensor, Option.bind_eq_bind, Option.bind_eq_some_iff] at h
  obtain ⟨_, -, data, hdata, heq⟩ := h
  cases heq
  exact ⟨hu.1, by rw [List.size_toArray, length_mapM hdata, Array.length_toList, hu.2]⟩

theorem evalAll_some {es : List Expr} {ts : List (Tensor α)} (h : Expr.evalAll mem es = some ts) :
    List.Forall₂ (fun e t => e.eval mem = some t) es ts := by
  induction es generalizing ts with
  | nil =>
    cases h
    exact .nil
  | cons e es ih =>
    simp only [Expr.evalAll, Option.bind_eq_bind, Option.bind_eq_some_iff] at h
    obtain ⟨t, ht, ts, hts, heq⟩ := h
    cases heq
    exact .cons ht (ih hts)

/-! ## Expressions -/

/-- The tensor that evaluation returns has the shape of the expression. -/
theorem Expr.Shaped.eval_sized {e : Expr} {sh : Shape} (h : e.Shaped K s sh)
    (hmem : mem.Sized (Symbols.shapes s.find?)) (heval : e.eval mem = some t) : t.Sized sh := by
  induction h generalizing t with
  | ident hd _ _ =>
    obtain ⟨u, hu, hsized⟩ := hmem _ _ (Symbols.shapes_eq hd)
    rw [Expr.eval, hu] at heval
    cases heval
    exact hsized
  | const _ =>
    cases heval
    exact ⟨rfl, rfl⟩
  | binary _ _ _ ihx _ =>
    simp only [Expr.eval, Option.bind_eq_bind, Option.bind_eq_some_iff] at heval
    obtain ⟨x, hx, y, -, hzip⟩ := heval
    exact zipTensors_sized hzip (ihx hx)
  | scale _ _ _ _ ihx =>
    simp only [Expr.eval, Option.bind_eq_bind, Option.bind_eq_some_iff] at heval
    obtain ⟨c, -, x, hx, hscale⟩ := heval
    exact scaleTensor_sized hscale (ihx hx)
  | product _ _ _ ihx ihy =>
    simp only [Expr.eval, Option.bind_eq_bind, Option.bind_eq_some_iff] at heval
    obtain ⟨x, hx, y, hy, houter⟩ := heval
    rw [outerTensor, (ihx hx).1, (ihy hy).1] at houter
    exact fillTensor_sized houter
  | contract _ _ _ _ _ ihx ihy =>
    simp only [Expr.eval, Option.bind_eq_bind, Option.bind_eq_some_iff] at heval
    obtain ⟨x, hx, y, hy, hcontract⟩ := heval
    rw [contractTensor, (ihx hx).1, (ihy hy).1] at hcontract
    exact Tensor.tabulate_sized hcontract
  | @stack m ms sh _ _ ih =>
    simp only [Expr.eval, Option.bind_eq_bind, Option.bind_eq_some_iff] at heval
    obtain ⟨ts, hts, hstack⟩ := heval
    cases evalAll_some hts with
    | cons hx hxs =>
      rw [stackTensors, (ih m (.head _) hx).1, ← hxs.length_eq] at hstack
      exact fillTensor_sized hstack
  | transpose _ hfwd ih =>
    simp only [Expr.eval, Option.bind_eq_bind, Option.bind_eq_some_iff] at heval
    obtain ⟨u, hu, htranspose⟩ := heval
    simp only [transposeTensor, (ih hu).1, Shape.permute, hfwd, Option.bind_eq_bind,
      Option.bind_some] at htranspose
    exact Tensor.tabulate_sized htranspose
  | shared _ ih => exact ih heval

/-! ## Memories -/

/-- A memory to start from holds every declared tensor with its shape. -/
theorem initialMemory_sized {inputs : Inputs α} {decls : List Symbol}
    (hnd : (decls.map Symbol.name).Nodup) (h : initialMemory inputs decls mem = .ok mem') :
    (∀ d ∈ decls, ∃ t, mem'.get? d.name = some t ∧ t.Sized d.shape) ∧
      ∀ name, name ∉ decls.map Symbol.name → mem'.get? name = mem.get? name := by
  induction decls generalizing mem with
  | nil =>
    cases h
    exact ⟨by simp, fun _ _ => rfl⟩
  | cons d ds ih =>
    rw [List.map_cons, List.nodup_cons] at hnd
    -- whatever the first tensor is filled with, it is not touched again
    have hinsert : ∀ t : Tensor α, t.Sized d.shape →
        initialMemory inputs ds (mem.insert d.name t) = .ok mem' →
        (∀ e ∈ d :: ds, ∃ t, mem'.get? e.name = some t ∧ t.Sized e.shape) ∧
          ∀ name, name ∉ (d :: ds).map Symbol.name → mem'.get? name = mem.get? name := by
      intro t ht hrest
      obtain ⟨hall, hother⟩ := ih hnd.2 hrest
      refine ⟨List.forall_mem_cons.mpr ⟨⟨t, ?_, ht⟩, hall⟩, fun name hname => ?_⟩
      · rw [hother _ hnd.1, OrderedMap.get?_insert, if_pos rfl]
      · rw [List.map_cons, List.mem_cons, not_or] at hname
        rw [hother name hname.2, OrderedMap.get?_insert, if_neg hname.1]
    rw [initialMemory] at h
    obtain ⟨t, hzeros, h⟩ := bind_eq_ok.mp h
    have ht : t.Sized d.shape := by
      cases hz : Tensor.zeros (α := α) d.shape with
      | none =>
        rw [hz] at hzeros
        cases hzeros
      | some z =>
        rw [hz] at hzeros
        cases hzeros
        exact Tensor.zeros_sized hz
    cases hlookup : inputs.lookup d.name with
    | none =>
      rw [hlookup] at h
      exact hinsert t ht h
    | some vals =>
      rw [hlookup] at h
      obtain ⟨hlen, h⟩ := check_eq_ok.mp h
      refine hinsert _ ⟨rfl, ?_⟩ h
      rw [List.size_toArray, Classical.not_not.mp hlen, ht.2]

omit [Scalar α] in
theorem writeThrough_sized {perm : List Swap} (h : writeThrough perm t u = some v)
    (hu : u.Sized dims) : v.Sized dims := by
  rw [writeThrough, forEach_eq_visits] at h
  refine foldlM_preserves (·.Sized dims) hu (fun w idx _ hw w' hstep => ?_) h
  simp only [Option.bind_eq_bind, Option.bind_eq_some_iff] at hstep
  obtain ⟨_, -, _, -, hset⟩ := hstep
  exact hw.set? hset

/-- Every tensor keeps its shape. -/
theorem Stmt.eval_sized {S : Shapes} {st : Stmt} (h : st.eval mem = some mem') (hmem : mem.Sized S) :
    mem'.Sized S := by
  simp only [Stmt.eval, Option.bind_eq_bind, Option.bind_eq_some_iff] at h
  obtain ⟨value, -, hchange⟩ := h
  rcases mem.change?_cases st.dst (writeThrough st.perm value) with
    ⟨hnone, -⟩ | ⟨u, v, mem'', hu, hv, hch, -, hget⟩
  · rw [hnone] at hchange
    cases hchange
  · rw [hch] at hchange
    cases hchange
    intro name stored hname
    obtain ⟨w, hw, hsized⟩ := hmem name stored hname
    by_cases heq : name = st.dst
    · subst heq
      rw [hu] at hw
      cases hw
      exact ⟨v, by rw [hget, if_pos rfl], writeThrough_sized hv hsized⟩
    · exact ⟨w, by rw [hget, if_neg heq, hw], hsized⟩

theorem evalStmts_sized {S : Shapes} {stmts : List Stmt} (h : evalStmts mem stmts = some mem')
    (hmem : mem.Sized S) : mem'.Sized S := by
  induction stmts generalizing mem with
  | nil =>
    cases h
    exact hmem
  | cons st rest ih =>
    simp only [evalStmts, Option.bind_eq_bind, Option.bind_eq_some_iff] at h
    obtain ⟨mem₁, hst, hrest⟩ := h
    exact ih hrest (Stmt.eval_sized hst hmem)

end Typed

end LoopNest
