import LoopNest.Proofs.Tree.Copying
import LoopNest.Proofs.Typed.Translation

/-!
# Occurrences of expressions

An expression occurs in another one below a path (`Expr.Occurs`): the positions of the operands that
lead to it, in the order in which the node of an expression lists them. The nodes of a program are
followed along the same paths (`Program.follow?`), and what is stored below a copy of the tree of an
expression is a copy of the trees of its parts (`Expr.Occurs.stored`). An expression is sited when
every labelled part of it stands at the node of its label (`Expr.Sited`).
-/

namespace LoopNest

/-- The node below another one that a path of operands leads to. -/
def Program.follow? (p : Program) (id : NodeId) : List Nat → Option NodeId
  | [] => some id
  | k :: path => do p.follow? (← p.operand? id k) path

theorem Program.follow?_cons {p : Program} {id : NodeId} {n : Node} (hn : p.nodes[id]? = some n)
    {k : Nat} {x : NodeId} (hx : n.operands[k]? = some x) (path : List Nat) :
    p.follow? id (k :: path) = p.follow? x path := by
  simp [follow?, operand?, node?, hn, hx]

/-- A path stays where it is as long as the nodes on it do. -/
theorem Program.follow?_mono {p p' : Program}
    (hnodes : ∀ (id : NodeId) n, p.nodes[id]? = some n → p'.nodes[id]? = some n) {path : List Nat}
    {id x : NodeId} (h : p.follow? id path = some x) : p'.follow? id path = some x := by
  induction path generalizing id with
  | nil => exact h
  | cons k path ih =>
    simp only [follow?, operand?, node?, Option.bind_eq_bind, Option.bind_eq_some_iff] at h
    obtain ⟨y, ⟨n, hn, hy⟩, hx⟩ := h
    rw [follow?_cons (hnodes _ _ hn) hy]
    exact ih hx

namespace Typed.Expr

/-- The operands of an expression, in the order in which its node lists them. -/
def operands : Expr → List Expr
  | .missing | .ident _ _ | .const _ | .shared _ _ => []
  | .binary _ x y | .product x y | .contract x _ y _ => [x, y]
  | .scale op c x => if op = .scalarDiv then [x, c] else [c, x]
  | .stack ms => ms
  | .transpose x _ => [x]

/-- The tree of an expression stands above those of its operands. -/
theorem tree_eq_node {e x : Expr} (hx : x ∈ e.operands) :
    ∃ n, e.tree = .node 0 n (e.operands.map tree) := by
  cases e with
  | missing | ident | const | shared => cases hx
  | binary | product | contract | transpose => exact ⟨_, rfl⟩
  | scale op =>
    by_cases hdiv : op = .scalarDiv
    · exact ⟨_, by rw [tree, if_pos hdiv, operands, if_pos hdiv]; rfl⟩
    · exact ⟨_, by rw [tree, if_neg hdiv, operands, if_neg hdiv]; rfl⟩
  | stack ms => exact ⟨_, by rw [tree, trees_eq, operands]⟩

/-- The expression `e'` occurs in another one below a path. A label does not add to the path. -/
inductive Occurs : Expr → List Nat → Expr → Prop
  | refl {e : Expr} : Occurs e [] e
  | shared {label : Nat} {e e' : Expr} {path : List Nat} : Occurs e path e' →
    Occurs (.shared label e) path e'
  | operand {e x e' : Expr} {k : Nat} {path : List Nat} : e.operands[k]? = some x →
    Occurs x path e' → Occurs e (k :: path) e'

/-! ## Parts -/

theorem parts_operand {e x : Expr} (hx : x ∈ e.operands) : x.parts ⊆ e.parts := by
  intro part hpart
  cases e with
  | missing | ident | const | shared => cases hx
  | binary | product | contract =>
    rw [operands, List.mem_pair] at hx
    rcases hx with rfl | rfl <;> simp [parts, hpart]
  | scale op =>
    rw [operands] at hx
    split at hx <;> rw [List.mem_pair] at hx <;> rcases hx with rfl | rfl <;> simp [parts, hpart]
  | stack ms =>
    rw [parts, partsAll_eq]
    exact List.mem_cons_of_mem _ (List.mem_flatMap.mpr ⟨x, hx, hpart⟩)
  | transpose =>
    rw [operands, List.mem_singleton] at hx
    subst hx
    simp [parts, hpart]

theorem Occurs.parts_subset {e e' : Expr} {path : List Nat} (h : e.Occurs path e') :
    e'.parts ⊆ e.parts := by
  induction h with
  | refl => exact fun _ hpart => hpart
  | shared _ ih => exact fun _ hpart => List.mem_cons_of_mem _ (ih hpart)
  | operand hx _ ih => exact fun _ hpart => parts_operand (List.mem_of_getElem? hx) (ih hpart)

/-- The part that an expression is of itself is the only one as large. -/
theorem sizeOf_part {e part : Expr} (h : part ∈ e.parts) : sizeOf part ≤ sizeOf e := by
  induction e using Expr.inductionOn with
  | missing | ident | const =>
    obtain rfl := List.mem_singleton.mp h
    exact Nat.le_refl _
  | binary _ x y ihx ihy | product x y ihx ihy | contract x _ y _ ihx ihy | scale _ x y ihx ihy =>
    rw [parts, List.mem_cons, List.mem_append] at h
    rcases h with rfl | h | h
    · exact Nat.le_refl _
    · have := ihx h
      simp only [binary.sizeOf_spec, product.sizeOf_spec, contract.sizeOf_spec, scale.sizeOf_spec]
      omega
    · have := ihy h
      simp only [binary.sizeOf_spec, product.sizeOf_spec, contract.sizeOf_spec, scale.sizeOf_spec]
      omega
  | stack ms ih =>
    rw [parts, partsAll_eq, List.mem_cons, List.mem_flatMap] at h
    rcases h with rfl | ⟨m, hm, h⟩
    · exact Nat.le_refl _
    · have := ih m hm h
      have := List.sizeOf_lt_of_mem hm
      simp only [stack.sizeOf_spec]
      omega
  | transpose x _ ih | shared _ x ih =>
    rw [parts, List.mem_cons] at h
    rcases h with rfl | h
    · exact Nat.le_refl _
    · have := ih h
      simp only [transpose.sizeOf_spec, shared.sizeOf_spec]
      omega

/-- A label does not occur below itself. -/
theorem shared_notMem_parts (label : Nat) (e : Expr) : .shared label e ∉ e.parts := by
  intro h
  have := sizeOf_part h
  simp only [shared.sizeOf_spec] at this
  omega

/-! ## Nodes -/

/-- The tree of an expression has no numbers. -/
theorem strip_tree (e : Expr) : e.tree.strip = e.tree := by
  induction e using Expr.inductionOn with
  | missing => rw [tree, Tree.strip]
  | ident | const => simp [tree, Tree.strip_node]
  | binary _ _ _ ihx ihy | product _ _ ihx ihy | contract _ _ _ _ ihx ihy =>
    simp [tree, Tree.strip_node, ihx, ihy]
  | scale op _ _ ihc ihx =>
    by_cases hdiv : op = .scalarDiv <;> simp [tree, Tree.strip_node, hdiv, ihc, ihx]
  | stack ms ih =>
    have hms : (ms.map tree).map Tree.strip = ms.map tree := by
      rw [List.map_map]
      exact List.map_congr_left ih
    rw [tree, trees_eq, Tree.strip_node, hms, List.map_map]
    rfl
  | transpose _ _ ih => simp [tree, Tree.strip_node, ih]
  | shared _ _ ih => exact ih

/-- Below a stored copy of the tree of an expression stands a copy of the tree of every part. -/
theorem Occurs.stored {q : LoopNest.Program} {e e' : Expr} {path : List Nat} (h : e.Occurs path e')
    {t : Tree} (ht : t.StoredIn q.nodes) (hstrip : t.strip = e.tree.strip) :
    ∃ u : Tree, q.follow? t.root path = some u.root ∧ u.StoredIn q.nodes ∧
      u.strip = e'.tree.strip := by
  induction h generalizing t with
  | refl => exact ⟨t, rfl, ht, hstrip⟩
  | shared _ ih => exact ih ht hstrip
  | @operand e x _ k path hx _ ih =>
    obtain ⟨n₀, htree⟩ := tree_eq_node (List.mem_of_getElem? hx)
    rw [htree] at hstrip
    obtain ⟨id, n, ts, rfl, -, hts⟩ := Tree.eq_node_of_strip hstrip
    have hk := congrArg (·[k]?) hts
    simp only [List.getElem?_map, hx, Option.map_some, Option.map_eq_some_iff] at hk
    obtain ⟨u, hu, hstrip'⟩ := hk
    obtain ⟨v, hfollow, hv⟩ := ih (ht.operand (List.mem_of_getElem? hu)) hstrip'
    refine ⟨v, ?_, hv⟩
    rw [Tree.root_node, Program.follow?_cons ht.node_eq (x := u.root)]
    · exact hfollow
    · rw [ht.operands_eq, List.getElem?_map, hu, Option.map_some]

/-- Below the node of an expression, every labelled part stands at the node of its label. -/
def Sited (q : LoopNest.Program) (site : Nat → Option NodeId) (e : Expr) (id : NodeId) : Prop :=
  ∀ path label x, e.Occurs path (.shared label x) →
    ∃ id', q.follow? id path = some id' ∧ site label = some id'

variable {q q' : LoopNest.Program} {site site' : Nat → Option NodeId} {e : Expr} {id : NodeId}

theorem Sited.mono (h : e.Sited q site id)
    (hnodes : ∀ (id : NodeId) n, q.nodes[id]? = some n → q'.nodes[id]? = some n)
    (hsite : ∀ label id, site label = some id → site' label = some id) : e.Sited q' site' id := by
  intro path label x hx
  obtain ⟨id', hfollow, hid'⟩ := h path label x hx
  exact ⟨id', Program.follow?_mono hnodes hfollow, hsite label id' hid'⟩

/-- A node is sited when its operands are. -/
theorem Sited.node {n : Node} (hn : q.nodes[id]? = some n) (hlabel : ∀ label x, e ≠ .shared label x)
    (hops : List.Forall₂ (Sited q site) e.operands n.operands) : e.Sited q site id := by
  intro path label x hx
  cases hx with
  | refl => exact absurd rfl (hlabel label x)
  | shared _ => exact absurd rfl (hlabel _ _)
  | @operand _ y _ k path hy hx =>
    obtain ⟨i, hi, hsited⟩ := forall₂_getElem? hops hy
    rw [Program.follow?_cons hn hi]
    exact hsited path label x hx

theorem Sited.shared {label : Nat} (h : e.Sited q site id) (hsite : site label = some id) :
    (Expr.shared label e).Sited q site id := by
  intro path label' x hx
  cases hx with
  | refl => exact ⟨id, rfl, hsite⟩
  | shared hx => exact h path label' x hx
  | operand hy _ => cases hy

end Typed.Expr

end LoopNest
