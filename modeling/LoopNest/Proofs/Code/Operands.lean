import LoopNest.Proofs.Code.Nest

/-!
# The code of expressions

The expression that is written for a tree has the value of the tree, at every point of the scope that
has been opened when it is written (`Coding.tree_spec`). A `Coding` says how the indices that a subtree
is written at correspond to the indices at which its value is wanted, and that reads of tensors are
written correctly.
-/

namespace LoopNest.C

/-! ## Running the writer -/

namespace Emit

variable {β γ : Type} {w w' : Writer}

theorem bind_ok {x : Emit β} {f : β → Emit γ} {b : β} (h : x w = .ok (b, w')) :
    (x >>= f) w = f b w' := by
  show (x w >>= fun r => f r.1 r.2) = _
  rw [h]
  rfl

@[simp] theorem pure_run (b : β) : (pure b : Emit β) w = .ok (b, w) := rfl

theorem demand_run {o : Option β} {b : β} (h : o = some b) : demand o w = .ok (b, w) := by
  rw [h]
  rfl

theorem get_run : (get : Emit Writer) w = .ok (w, w) := rfl

theorem modify_run (f : Writer → Writer) : (modify f : Emit Unit) w = .ok ((), f w) := rfl

theorem write_run (s : Stmt) : write s w = .ok ((), w.write s) := rfl

theorem trees_eq_map (p : Program) (layout : Layout) (ts : List Tree) :
    trees p layout ts = ts.map (tree p layout) := by
  induction ts with
  | nil => rfl
  | cons t ts ih => rw [trees, ih, List.map_cons]

theorem tree_node (p : Program) (layout : Layout) (id : NodeId) (n : Node) (ts : List Tree)
    (is : List Index) : tree p layout (.node id n ts) is =
      node p layout id n ts (ts.map (tree p layout)) is := by
  rw [tree, trees_eq_map]

theorem node_arith {p : Program} {layout : Layout} {id : NodeId} {n : Node} {ts : List Tree}
    {values : List (List Index → Emit Expr)} {is : List Index} {op : ArithOp}
    (hop : n.kind.arith? = some op) : node p layout id n ts values is = (do
      let indices ← demand (n.operandIndices (ts.map Tree.rank?) is [])
      let x ← operandAt ts values indices 0
      let y ← operandAt ts values indices 1
      return .arith op x y) := by
  rw [node]
  split
  case h_6 => rw [hop]
  all_goals
    rename_i hk
    rw [hk] at hop
    cases hop

end Emit

/-! ## Expressions -/

variable {α : Type} [Scalar α] {p : Program} {layout : Layout} {sc : Scene α}

/-- How the subtrees of an assignment are written: `Good t is view` says that `t` can be written at the
indices `is` and that its value is wanted, for a point of the scene, at the index `view pt`. -/
structure Coding (p : Program) (layout : Layout) (sc : Scene α) where
  Good : Tree → List Index → (List Int → List Int) → Prop
  Ready : Writer → Prop
  ready : ∀ {w w' : Writer}, Ready w → w.Grows w' → Ready w'
  missing : ∀ {is view}, ¬ Good .missing is view
  operands : ∀ {id n ts is view}, Good (.node id n ts) is view →
    n.kind = .identifier ∨ n.kind = .constant ∨ ∃ op t₀ t₁ is₀ is₁ view₀ view₁,
      n.kind.arith? = some op ∧ ts = [t₀, t₁] ∧
      n.operandIndices (ts.map Tree.rank?) is [] = some [is₀, is₁] ∧ Good t₀ is₀ view₀ ∧
      Good t₁ is₁ view₁ ∧ ∀ env pt, sc.At env pt →
        n.operandIndices (ts.map Tree.rank?) (view pt) [] = some [view₀ pt, view₁ pt]
  read : ∀ {id n ts is view w}, Good (.node id n ts) is view → n.kind = .identifier → Ready w →
    ∃ e w', Emit.access p layout n is w = .ok (e, w') ∧
      sc.Emits w w' fun σ => sc.Values σ (.element e) fun pt => loadAt σ n (view pt)

namespace Coding

variable (cd : Coding p layout sc)

/-- The expression of an operand, given what holds of its tree. -/
theorem operandAt_spec {ts : List Tree} {indices : List (List Index)} {k : Nat} {t : Tree}
    {is : List Index} {view : List Int → List Int} {w w' : Writer} {e : Expr} (ht : ts[k]? = some t)
    (his : indices[k]? = some is) (hrun : Emit.tree p layout t is w = .ok (e, w'))
    (he : sc.Emits w w' fun σ => sc.Values σ e fun pt => t.eval σ (view pt)) :
    ∃ e' w'', Emit.operandAt ts (ts.map (Emit.tree p layout)) indices k w = .ok (e', w'') ∧
      sc.Emits w w'' fun σ => sc.Values σ e' fun pt => t.eval σ (view pt) := by
  have hvalue : (ts.map (Emit.tree p layout))[k]? = some (Emit.tree p layout t) := by
    rw [List.getElem?_map, ht]
    rfl
  have hoperand : Emit.operandAt ts (ts.map (Emit.tree p layout)) indices k w =
      Emit.operand ((t.label?.map (·.kind.isLeaf)).getD false) (Emit.tree p layout t is) w := by
    rw [Emit.operandAt, Emit.bind_ok (Emit.demand_run ht), Emit.bind_ok (Emit.demand_run hvalue),
      Emit.bind_ok (Emit.demand_run his)]
  rw [hoperand, Emit.operand, Emit.bind_ok hrun]
  cases (t.label?.map (·.kind.isLeaf)).getD false with
  | true => exact ⟨e, w', rfl, he⟩
  | false =>
    exact ⟨_, _, rfl, he.declare fun σ pt => t.eval σ (view pt)⟩

/-- The expression that is written for a tree has the value of the tree. -/
theorem tree_spec {t : Tree} {is : List Index} {view : List Int → List Int} (h : cd.Good t is view)
    {w : Writer} (hw : cd.Ready w) : ∃ e w', Emit.tree p layout t is w = .ok (e, w') ∧
      sc.Emits w w' fun σ => sc.Values σ e fun pt => t.eval σ (view pt) := by
  induction t using Tree.inductionOn generalizing is view w with
  | missing => exact absurd h cd.missing
  | node id n ts ih =>
    rw [Emit.tree_node]
    rcases cd.operands h with hk | hk | ⟨op, t₀, t₁, is₀, is₁, view₀, view₁, hop, rfl, hops, h₀, h₁, hview⟩
    · obtain ⟨e, w', hrun, he⟩ := cd.read h hk hw
      refine ⟨.element e, w', ?_, he.mono fun σ f _ hvalues => ?_⟩
      · rw [Emit.node, hk]
        exact (Emit.bind_ok hrun).trans rfl
      · simpa only [Tree.eval_ident hk] using hvalues
    · refine ⟨.literal n.value, w, by rw [Emit.node, hk]; rfl, .refl fun σ f _ f' A pt _ _ _ => ?_⟩
      exact ⟨_, rfl, Tree.eval_constant hk⟩
    · obtain ⟨e₀, w₀, hrun₀, he₀⟩ := ih t₀ (by simp) h₀ hw
      obtain ⟨x, w₁, hx, hxv⟩ := operandAt_spec (show [t₀, t₁][0]? = _ from rfl)
        (show [is₀, is₁][0]? = _ from rfl) hrun₀ he₀
      obtain ⟨e₁, w₂, hrun₁, he₁⟩ := ih t₁ (by simp) h₁ (cd.ready hw hxv.grows)
      obtain ⟨y, w₃, hy, hyv⟩ := operandAt_spec (show [t₀, t₁][1]? = _ from rfl)
        (show [is₀, is₁][1]? = _ from rfl) hrun₁ he₁
      refine ⟨.arith op x y, w₃, ?_, ?_⟩
      · rw [Emit.node_arith hop, Emit.bind_ok (Emit.demand_run hops), Emit.bind_ok hx, Emit.bind_ok hy]
        rfl
      · refine (hxv.trans hyv fun σ f f' hwithin hv => hv.within _ hwithin).mono fun σ f _ hboth => ?_
        intro f' A pt hwithin hA hpt
        obtain ⟨u, hu, hu'⟩ := hboth.1 f' A pt hwithin hA hpt
        obtain ⟨v, hv, hv'⟩ := hboth.2 f' A pt hwithin hA hpt
        refine ⟨op.eval u v, ?_, ?_⟩
        · rw [Expr.eval, hu, hv]
          rfl
        · dsimp only at hu' hv' ⊢
          rw [Tree.eval_arith hop (hview _ pt hpt), hu', hv']
          rfl

end Coding

end LoopNest.C
