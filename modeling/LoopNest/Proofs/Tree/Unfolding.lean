import LoopNest.Proofs.Tree.Typing

/-!
# Trees and the table of nodes

`Tree.StoredIn` says that a tree is what a table of nodes holds below its root. There is at most one
such tree for a root (`StoredIn.unique`), it does not meet a node again below itself, and therefore
it is what `Program.tree` unfolds, whose depth is cut off at the size of the table
(`StoredIn.tree_eq`). A tree stays where it is as long as its own nodes are unchanged
(`StoredIn.frame`).
-/

namespace LoopNest

namespace Tree

mutual
/-- The numbers of the nodes of a tree, parents before operands. -/
def ids : Tree → List NodeId
  | .missing => []
  | .node id _ ts => id :: idsAll ts

/-- The numbers of the nodes of several trees. -/
def idsAll : List Tree → List NodeId
  | [] => []
  | t :: ts => t.ids ++ idsAll ts
end

mutual
/-- The nodes of a tree, parents before operands. -/
def labels : Tree → List Node
  | .missing => []
  | .node _ n ts => n :: labelsAll ts

/-- The nodes of several trees. -/
def labelsAll : List Tree → List Node
  | [] => []
  | t :: ts => t.labels ++ labelsAll ts
end

theorem idsAll_eq (ts : List Tree) : idsAll ts = ts.flatMap ids := by
  induction ts with
  | nil => rfl
  | cons t ts ih => rw [idsAll, ih, List.flatMap_cons]

theorem labelsAll_eq (ts : List Tree) : labelsAll ts = ts.flatMap labels := by
  induction ts with
  | nil => rfl
  | cons t ts ih => rw [labelsAll, ih, List.flatMap_cons]

@[simp] theorem ids_node (id : NodeId) (n : Node) (ts : List Tree) :
    (Tree.node id n ts).ids = id :: ts.flatMap ids := by
  rw [ids, idsAll_eq]

@[simp] theorem labels_node (id : NodeId) (n : Node) (ts : List Tree) :
    (Tree.node id n ts).labels = n :: ts.flatMap labels := by
  rw [labels, labelsAll_eq]

theorem mem_labels_of_label? {t : Tree} {n : Node} (h : n ∈ t.label?) : n ∈ t.labels := by
  cases t with
  | missing => cases h
  | node id m ts =>
    cases h
    rw [labels_node]
    exact .head _

/-- The names of the tensors that a tree reads, in order. -/
def names (t : Tree) : List String :=
  t.labels.filterMap fun n => if n.kind = .identifier then some n.name else none

theorem names_node (id : NodeId) (n : Node) (ts : List Tree) :
    (Tree.node id n ts).names =
      (if n.kind = .identifier then [n.name] else []) ++ ts.flatMap names := by
  unfold names
  rw [labels_node, List.filterMap_cons]
  split
  · split <;> simp_all [List.filterMap_flatMap]
  · split <;> simp_all [List.filterMap_flatMap]

/-- The identifiers of a tree select parts of declared tensors. -/
theorem Typed.views {C : Node → Prop} {S : Shapes} {t : Tree} (h : t.Typed C S) :
    ∀ n ∈ t.labels, n.kind = .identifier → ∃ stored, S n.name = some stored ∧ n.Views stored := by
  induction h with
  | @node id n ts hclass hfits hts ih =>
    have hnode : (Tree.node id n ts).Typed C S := .node hclass hfits hts
    rw [labels_node, List.forall_mem_cons]
    refine ⟨hnode.identifier, fun m hm => ?_⟩
    obtain ⟨t, ht, hm⟩ := List.mem_flatMap.mp hm
    exact ih t ht m hm

/-- A tree is what a table of nodes holds below its root. -/
inductive StoredIn (nodes : Array Node) : Tree → Prop
  | node {id : NodeId} {n : Node} {ts : List Tree} : nodes[id]? = some n →
    n.operands = ts.map root → (∀ t ∈ ts, t.StoredIn nodes) → StoredIn nodes (.node id n ts)

namespace StoredIn

variable {nodes nodes' : Array Node}

theorem node_eq {id : NodeId} {n : Node} {ts : List Tree}
    (h : (Tree.node id n ts).StoredIn nodes) : nodes[id]? = some n := by
  cases h
  assumption

theorem operands_eq {id : NodeId} {n : Node} {ts : List Tree}
    (h : (Tree.node id n ts).StoredIn nodes) : n.operands = ts.map root := by
  cases h
  assumption

theorem operand {id : NodeId} {n : Node} {ts : List Tree}
    (h : (Tree.node id n ts).StoredIn nodes) {t : Tree} (ht : t ∈ ts) : t.StoredIn nodes := by
  cases h with
  | node _ _ hts => exact hts t ht

theorem exists_node {t : Tree} (h : t.StoredIn nodes) :
    ∃ n ts, t = .node t.root n ts ∧ nodes[t.root]? = some n := by
  cases h with
  | node hn _ _ => exact ⟨_, _, rfl, hn⟩

theorem lt_size {t : Tree} (h : t.StoredIn nodes) : ∀ x ∈ t.ids, x < nodes.size := by
  induction h with
  | node hn _ _ ih =>
    intro x hx
    rw [ids_node, List.mem_cons, List.mem_flatMap] at hx
    rcases hx with rfl | ⟨t, ht, hx⟩
    · exact (Array.getElem?_eq_some_iff.mp hn).1
    · exact ih t ht x hx

/-- A tree stays where it is when its nodes are unchanged. -/
theorem frame {t : Tree} (h : t.StoredIn nodes) (heq : ∀ x ∈ t.ids, nodes'[x]? = nodes[x]?) :
    t.StoredIn nodes' := by
  induction h with
  | @node id n ts hn hops _ ih =>
    refine .node ((heq id (by simp)).trans hn) hops fun t ht => ih t ht fun x hx => heq x ?_
    rw [ids_node]
    exact List.mem_cons_of_mem _ (List.mem_flatMap.mpr ⟨t, ht, hx⟩)

/-- A root has at most one tree. -/
theorem unique {t t' : Tree} (h : t.StoredIn nodes) (h' : t'.StoredIn nodes)
    (hroot : t.root = t'.root) : t = t' := by
  induction h generalizing t' with
  | @node id n ts hn hops hts ih =>
    cases h' with
    | @node id' n' ts' hn' hops' hts' =>
      simp only [root_node] at hroot
      subst hroot
      rw [hn] at hn'
      cases hn'
      congr 1
      rw [hops] at hops'
      apply List.ext_getElem
      · simpa using congrArg List.length hops'
      · intro i h₁ h₂
        refine ih _ (List.getElem_mem h₁) (hts' _ (List.getElem_mem h₂)) ?_
        have := congrArg (fun l => l[i]?) hops'
        simpa [h₁, h₂] using this

theorem exists_subtree {t : Tree} (h : t.StoredIn nodes) {x : NodeId} (hx : x ∈ t.ids) :
    ∃ u : Tree, u.StoredIn nodes ∧ u.root = x ∧ sizeOf u ≤ sizeOf t := by
  induction h with
  | @node id n ts hn hops hts ih =>
    rw [ids_node, List.mem_cons, List.mem_flatMap] at hx
    rcases hx with rfl | ⟨t, ht, hx⟩
    · exact ⟨_, .node hn hops hts, rfl, Nat.le_refl _⟩
    · obtain ⟨u, hu, hr, hsize⟩ := ih t ht hx
      have := List.sizeOf_lt_of_mem ht
      exact ⟨u, hu, hr, by simp only [Tree.node.sizeOf_spec]; omega⟩

/-- No node is met again below itself. -/
theorem root_notMem {id : NodeId} {n : Node} {ts : List Tree}
    (h : (Tree.node id n ts).StoredIn nodes) {t : Tree} (ht : t ∈ ts) : id ∉ t.ids := by
  intro hmem
  obtain ⟨u, hu, hr, hsize⟩ := (h.operand ht).exists_subtree hmem
  rw [hu.unique h hr] at hsize
  have := List.sizeOf_lt_of_mem ht
  simp only [Tree.node.sizeOf_spec] at hsize
  omega

end StoredIn

end Tree

theorem length_le_of_nodup_lt {l : List Nat} {n : Nat} (hnd : l.Nodup) (h : ∀ x ∈ l, x < n) :
    l.length ≤ n := by
  have hsub : l ⊆ List.range n := fun x hx => List.mem_range.mpr (h x hx)
  simpa using (List.subperm_of_subset hnd hsub).length_le

namespace Tree

mutual
/-- The number of nodes on the longest path from the root. -/
def depth : Tree → Nat
  | .missing => 0
  | .node _ _ ts => depthAll ts + 1

/-- The depth of the deepest of several trees. -/
def depthAll : List Tree → Nat
  | [] => 0
  | t :: ts => max t.depth (depthAll ts)
end

theorem depth_le_depthAll {t : Tree} {ts : List Tree} (h : t ∈ ts) : t.depth ≤ depthAll ts := by
  induction ts with
  | nil => cases h
  | cons u ts ih =>
    rw [depthAll]
    rcases List.mem_cons.mp h with rfl | h
    · exact Nat.le_max_left ..
    · exact Nat.le_trans (ih h) (Nat.le_max_right ..)

theorem depth_lt {id : NodeId} {n : Node} {ts : List Tree} {t : Tree} (h : t ∈ ts) :
    t.depth < (Tree.node id n ts).depth := by
  rw [depth]
  exact Nat.lt_succ_of_le (depth_le_depthAll h)

/-- The nodes above a stored tree and those on a path of it are different, so together they are no
more than the table has. -/
theorem StoredIn.depth_add_le {nodes : Array Node} {t : Tree} (h : t.StoredIn nodes)
    (above : List NodeId) (hnd : above.Nodup) (hlt : ∀ x ∈ above, x < nodes.size)
    (hdisj : ∀ x ∈ t.ids, x ∉ above) : t.depth + above.length ≤ nodes.size := by
  induction h generalizing above with
  | @node id n ts hn hops hts ih =>
    have hstored : (Tree.node id n ts).StoredIn nodes := .node hn hops hts
    have hnd' : (id :: above).Nodup := List.nodup_cons.mpr ⟨hdisj id (by simp), hnd⟩
    have hlt' : ∀ x ∈ id :: above, x < nodes.size := by
      simpa using ⟨(Array.getElem?_eq_some_iff.mp hn).1, hlt⟩
    have hlen := length_le_of_nodup_lt hnd' hlt'
    have hops : ∀ t ∈ ts, t.depth + (id :: above).length ≤ nodes.size := by
      intro t ht
      refine ih t ht (id :: above) hnd' hlt' fun x hx => ?_
      rw [List.mem_cons, not_or]
      refine ⟨?_, hdisj x ?_⟩
      · rintro rfl
        exact hstored.root_notMem ht hx
      · rw [ids_node]
        exact List.mem_cons_of_mem _ (List.mem_flatMap.mpr ⟨t, ht, hx⟩)
    have hall : ∀ l : List Tree, (∀ t ∈ l, t ∈ ts) →
        depthAll l + (id :: above).length ≤ nodes.size := by
      intro l
      induction l with
      | nil => exact fun _ => by simpa [depthAll] using hlen
      | cons t l ihl =>
        intro hsub
        have h₁ := hops t (hsub t (.head _))
        have h₂ := ihl fun t ht => hsub t (List.mem_cons_of_mem _ ht)
        rw [depthAll]
        omega
    have := hall ts fun _ h => h
    rw [depth]
    simp only [List.length_cons] at this
    omega

theorem StoredIn.depth_le {nodes : Array Node} {t : Tree} (h : t.StoredIn nodes) :
    t.depth ≤ nodes.size := by
  simpa using h.depth_add_le [] .nil (by simp) (by simp)

end Tree

theorem Program.root_of_unfold {p : Program} {fuel : Nat} {id x : NodeId} {n : Node} {ts : List Tree}
    (h : p.unfold fuel id = .node x n ts) : x = id := by
  cases fuel with
  | zero => cases h
  | succ fuel =>
    rw [unfold] at h
    split at h
    · cases h
    · cases h
      rfl

/-- Unfolding to the depth of a stored tree gives that tree. -/
theorem Program.unfold_eq {p : Program} {t : Tree} (h : t.StoredIn p.nodes) {fuel : Nat}
    (hfuel : t.depth ≤ fuel) : p.unfold fuel t.root = t := by
  induction h generalizing fuel with
  | @node id n ts hn hops hts ih =>
    cases fuel with
    | zero =>
      rw [Tree.depth] at hfuel
      omega
    | succ fuel =>
      have hnode : p.node? id = some n := hn
      simp only [Program.unfold, Tree.root_node, hnode, hops, List.map_map]
      congr 1
      conv_rhs => rw [← List.map_id ts]
      refine List.map_congr_left fun t ht => ih t ht ?_
      have : t.depth < (Tree.node id n ts).depth := Tree.depth_lt ht
      omega

/-- The tree of a program below a node is the stored one. -/
theorem Tree.StoredIn.tree_eq {p : Program} {t : Tree} (h : t.StoredIn p.nodes) :
    p.tree t.root = t :=
  Program.unfold_eq h h.depth_le

namespace Tree

variable {nodes : Array Node}

/-! ## Walks over stored trees -/

mutual
/-- The places of a tree, as `walkFrom` lists them when no node is missing. -/
def places (slot : Slot) : Tree → List (Slot × NodeId × Node)
  | .missing => []
  | .node id n ts => (slot, id, n) :: placesAll id 0 ts

/-- The places below the operands of a node. -/
def placesAll (parent : NodeId) (i : Nat) : List Tree → List (Slot × NodeId × Node)
  | [] => []
  | t :: ts => t.places (.operand parent i) ++ placesAll parent (i + 1) ts
end

theorem StoredIn.walkFrom_eq {t : Tree} (h : t.StoredIn nodes) (slot : Slot) :
    t.walkFrom slot = some (t.places slot) := by
  induction h generalizing slot with
  | @node id n ts hn hops hts ih =>
    clear hn hops hts
    have hops : ∀ i, walkOperands id i ts = some (placesAll id i ts) := by
      induction ts with
      | nil => exact fun _ => rfl
      | cons t ts ihts =>
        intro i
        simp [walkOperands, placesAll, ih t (.head _),
          ihts fun t ht => ih t (List.mem_cons_of_mem _ ht)]
    simp [walkFrom, places, hops]

theorem map_places (slot : Slot) (t : Tree) :
    (t.places slot).map (fun pl => pl.2.2) = t.labels ∧
      (t.places slot).map (fun pl => pl.2.1) = t.ids := by
  induction t using Tree.inductionOn generalizing slot with
  | missing => exact ⟨rfl, rfl⟩
  | node id n ts ih =>
    have hops : ∀ i, (placesAll id i ts).map (fun pl => pl.2.2) = labelsAll ts ∧
        (placesAll id i ts).map (fun pl => pl.2.1) = idsAll ts := by
      induction ts with
      | nil => exact fun _ => ⟨rfl, rfl⟩
      | cons t ts ihts =>
        intro i
        have h₁ := ih t (.head _) (.operand id i)
        have h₂ := ihts (fun t ht => ih t (List.mem_cons_of_mem _ ht)) (i + 1)
        simp [placesAll, labelsAll, idsAll, h₁, h₂]
    simp [places, hops, labels, ids]

/-- A property that operands have from their node is one of the tree at every place, and of the tree
above it, if there is one. -/
theorem places_spec {P : Tree → Prop}
    (hP : ∀ {id : NodeId} {n : Node} {ts : List Tree}, P (.node id n ts) → ∀ t ∈ ts, P t) {t : Tree}
    (ht : P t) {slot : Slot} : ∀ pl ∈ t.places slot, (∃ ts, P (.node pl.2.1 pl.2.2 ts)) ∧
      (pl.1 = slot ∨ ∃ parent k n ts, pl.1 = .operand parent k ∧ P (.node parent n ts)) := by
  induction t using Tree.inductionOn generalizing slot with
  | missing => simp [places]
  | node id n ts ih =>
    have hops : ∀ (us : List Tree) (k : Nat), (∀ u ∈ us, u ∈ ts) → ∀ pl ∈ placesAll id k us,
        (∃ ts, P (.node pl.2.1 pl.2.2 ts)) ∧
          ∃ parent k n ts, pl.1 = .operand parent k ∧ P (.node parent n ts) := by
      intro us
      induction us with
      | nil => simp [placesAll]
      | cons u us ihus =>
        intro k hsub pl hpl
        rw [List.forall_mem_cons] at hsub
        rw [placesAll, List.mem_append] at hpl
        rcases hpl with hpl | hpl
        · exact (ih u hsub.1 (hP ht u hsub.1) pl hpl).imp_right fun hslot =>
            hslot.elim (fun hslot => ⟨id, k, n, ts, hslot, ht⟩) fun hslot => hslot
        · exact ihus (k + 1) hsub.2 pl hpl
    intro pl hpl
    rw [places, List.mem_cons] at hpl
    rcases hpl with rfl | hpl
    · exact ⟨⟨ts, ht⟩, .inl rfl⟩
    · exact (hops ts 0 (fun _ h => h) pl hpl).imp_right .inr

theorem StoredIn.idents_eq {t : Tree} (h : t.StoredIn nodes) :
    ∃ is, t.idents = some is ∧ is.map (fun i => i.2.name) = t.names := by
  refine ⟨_, by simp [idents, walk, h.walkFrom_eq]; rfl, ?_⟩
  rw [names, ← (map_places .root t).1]
  induction t.places .root with
  | nil => rfl
  | cons pl pls ih => by_cases hk : pl.2.2.kind = .identifier <;> simp_all

/-- Whether a stored tree reads a tensor. -/
theorem StoredIn.reads_eq {t : Tree} (h : t.StoredIn nodes) (name : String) :
    t.reads name = some (decide (name ∈ t.names)) := by
  obtain ⟨is, his, hnames⟩ := h.idents_eq
  rw [reads, his, ← hnames]
  simp only [Option.bind_eq_bind, Option.bind_some, Option.pure_def, Option.some.injEq]
  rw [Bool.eq_iff_iff]
  simp

/-- How often a stored tree reads a tensor. -/
theorem StoredIn.countP_idents {t : Tree} (h : t.StoredIn nodes) (name : String) :
    ∃ is, t.idents = some is ∧ is.countP (fun i => i.2.name == name) = t.names.count name := by
  obtain ⟨is, his, hnames⟩ := h.idents_eq
  refine ⟨is, his, ?_⟩
  rw [← hnames, List.count, List.countP_map]
  rfl

/-! ## Values and names -/

theorem Touches.mem_names {t : Tree} {idx : List Int} {name : String} {sub : List Int}
    (h : t.Touches idx name sub) : name ∈ t.names := by
  induction h with
  | ident hk _ => simp [names_node, hk]
  | operand _ _ _ hj _ _ ih =>
    rw [names_node]
    exact List.mem_append_right _ (List.mem_flatMap.mpr ⟨_, List.mem_of_getElem? hj, ih⟩)

/-- The value of a tree depends on the contents of the tensors it reads only. -/
theorem eval_congr_names {α : Type} [Scalar α] {cells cells' : Cells α} {t : Tree}
    (h : ∀ name ∈ t.names, cells name = cells' name) : t.eval cells = t.eval cells' := by
  induction t using Tree.inductionOn with
  | missing => rfl
  | node id n ts ih =>
    have hts : ts.map (Tree.eval cells) = ts.map (Tree.eval cells') := by
      refine List.map_congr_left fun t ht => ih t ht fun name hname => h name ?_
      rw [names_node]
      exact List.mem_append_right _ (List.mem_flatMap.mpr ⟨t, ht, hname⟩)
    funext idx
    rw [eval_node, eval_node, hts]
    unfold Node.evalWith
    cases hk : n.kind with
    | identifier =>
      simp only [loadAt]
      rw [h n.name (by simp [names_node, hk])]
    | _ => rfl

theorem Typed.mem_shapes {C : Node → Prop} {S : Shapes} {t : Tree} (h : t.Typed C S) :
    ∀ name ∈ t.names, ∃ stored, S name = some stored := by
  induction h with
  | @node id n ts _ hfits _ ih =>
    intro name hname
    rw [names_node, List.mem_append, List.mem_flatMap] at hname
    rcases hname with hname | ⟨t, ht, hname⟩
    · generalize List.map Tree.shape ts = shapes at hfits
      cases hfits with
      | identifier hk hS _ =>
        simp only [hk, if_true, List.mem_singleton] at hname
        exact ⟨_, hname ▸ hS⟩
      | _ => simp_all [NodeKind.isElementwise]
    · exact ih t ht name hname

/-- A tree stays well-shaped when the tensors that it reads keep their shapes. -/
theorem Typed.mono {C : Node → Prop} {S S' : Shapes} {t : Tree} (h : t.Typed C S)
    (heq : ∀ name ∈ t.names, S' name = S name) : t.Typed C S' := by
  induction h with
  | @node id n ts hC hfits _ ih =>
    refine .node hC ?_ fun t ht => ih t ht fun name hname => heq name ?_
    · generalize List.map Tree.shape ts = shapes at hfits ⊢
      cases hfits with
      | identifier hk hS hv =>
        exact .identifier hk ((heq n.name (by simp [names_node, hk])).trans hS) hv
      | constant hk hs => exact .constant hk hs
      | elementwise hk => exact .elementwise hk
      | scalarMul hk => exact .scalarMul hk
      | scalarDiv hk => exact .scalarDiv hk
      | product hk hs => exact .product hk hs
      | contraction hk hx hy hs => exact .contraction hk hx hy hs
      | stack hk hlen hs hops => exact .stack hk hlen hs hops
      | transposition hk hx => exact .transposition hk hx
    · rw [names_node]
      exact List.mem_append_right _ (List.mem_flatMap.mpr ⟨t, ht, hname⟩)

/-- The nodes of a well-shaped tree belong to another class when all of its nodes do. -/
theorem Typed.of_labels {C C' : Node → Prop} {S : Shapes} {t : Tree} (h : t.Typed C S)
    (hC : ∀ n ∈ t.labels, C' n) : t.Typed C' S := by
  induction h with
  | @node id n ts _ hfits _ ih =>
    refine .node (hC n (by simp)) hfits fun t ht => ih t ht fun m hm => hC m ?_
    rw [labels_node]
    exact List.mem_cons_of_mem _ (List.mem_flatMap.mpr ⟨t, ht, hm⟩)

theorem StoredIn.labels {t : Tree} (h : t.StoredIn nodes) :
    ∀ n ∈ t.labels, ∃ id : NodeId, nodes[id]? = some n := by
  induction h with
  | @node id n ts hn _ _ ih =>
    intro m hm
    rw [labels_node, List.mem_cons, List.mem_flatMap] at hm
    rcases hm with rfl | ⟨t, ht, hm⟩
    · exact ⟨id, hn⟩
    · exact ih t ht m hm

end Tree

namespace Program

/-- The operands of nodes are nodes of the table, and no node is reached from itself. -/
def Acyclic (p : Program) : Prop :=
  ∃ height : NodeId → Nat, ∀ (id : NodeId) (n : Node), p.nodes[id]? = some n →
    ∀ op ∈ n.operands, op < p.nodes.size ∧ height op < height id

/-- Every node of a table without cycles is the root of a tree. -/
theorem Acyclic.exists_storedIn {p : Program} (h : p.Acyclic) {id : NodeId} (hid : id < p.nodes.size) :
    ∃ t : Tree, t.StoredIn p.nodes ∧ t.root = id := by
  obtain ⟨height, hheight⟩ := h
  induction hk : height id using Nat.strongRecOn generalizing id with
  | ind k ih =>
    have hn := Array.getElem?_eq_getElem hid
    have htrees : ∀ ops : List NodeId, (∀ op ∈ ops, op ∈ p.nodes[id].operands) →
        ∃ ts : List Tree, ops = ts.map Tree.root ∧ ∀ t ∈ ts, t.StoredIn p.nodes := by
      intro ops
      induction ops with
      | nil => exact fun _ => ⟨[], rfl, by simp⟩
      | cons op ops ihops =>
        intro hsub
        rw [List.forall_mem_cons] at hsub
        obtain ⟨ts, hroots, hts⟩ := ihops hsub.2
        obtain ⟨hlt, hless⟩ := hheight id _ hn op hsub.1
        obtain ⟨t, ht, hroot⟩ := ih (height op) (hk ▸ hless) hlt rfl
        exact ⟨t :: ts, by rw [List.map_cons, hroot, ← hroots], List.forall_mem_cons.mpr ⟨ht, hts⟩⟩
    obtain ⟨ts, hroots, hts⟩ := htrees _ fun _ h => h
    exact ⟨.node id p.nodes[id] ts, .node hn hroots hts, rfl⟩

end Program

/-- Trees depend on the nodes of the program alone. -/
theorem Program.tree_congr {p q : Program} (h : q.nodes = p.nodes) (id : NodeId) :
    q.tree id = p.tree id := by
  have hunfold : ∀ fuel id, q.unfold fuel id = p.unfold fuel id := by
    intro fuel
    induction fuel with
    | zero => exact fun _ => rfl
    | succ fuel ih =>
      intro id
      rw [unfold, unfold, node?, node?, h, funext ih]
  rw [tree, tree, h, hunfold]

end LoopNest
