import LoopNest.Proofs.Tree.Unfolding

/-!
# Rewriting a place of a tree

`Tree.Rewrites Q x s slot t t'` says that `t'` is `t` with the subtree `x` at a slot replaced by
`s`; the nodes above the slot satisfy `Q`. This is what putting a node at a slot does to a stored
tree (`Rewrites.storedIn`), provided that no node of the tree has two places. Replacing a subtree
by one of the same shape and the same value keeps a tree well-shaped and keeps its value.
`Tree.findFrom` finds places that can be rewritten (`StoredIn.find_cases`).
-/

namespace LoopNest

namespace Node

/-- The names that nodes read. -/
def namesOf (l : List Node) : List String :=
  l.filterMap fun n => if n.kind = .identifier then some n.name else none

@[simp] theorem namesOf_append (l m : List Node) : namesOf (l ++ m) = namesOf l ++ namesOf m :=
  List.filterMap_append

theorem Alike.name {n n' : Node} (h : n.Alike n') : n.name = n'.name := by rw [h]

theorem namesOf_alike {l l' : List Node} (h : List.Forall₂ Alike l l') :
    namesOf l = namesOf l' := by
  induction h with
  | nil => rfl
  | cons h _ ih =>
    unfold namesOf at ih ⊢
    rw [List.filterMap_cons, List.filterMap_cons, h.kind, h.name, ih]

theorem Fits.alike {S : Shapes} {n n' : Node} {shapes : List Shape} (h : n.Fits S shapes)
    (hn : n.Alike n') (hlen : n.kind = .stack → n'.operands.length = n.operands.length) :
    n'.Fits S shapes := by
  rw [hn]
  cases h with
  | identifier hk hS hv => exact .identifier hk hS hv
  | constant hk hs => exact .constant hk hs
  | elementwise hk => exact .elementwise (n := { n with operands := n'.operands }) hk
  | scalarMul hk => exact .scalarMul (n := { n with operands := n'.operands }) hk
  | scalarDiv hk => exact .scalarDiv (n := { n with operands := n'.operands }) hk
  | product hk hs => exact .product hk hs
  | contraction hk hx hy hs => exact .contraction hk hx hy hs
  | stack hk hlen' hs hops => exact .stack hk ((hlen hk).trans hlen') hs hops
  | transposition hk hx => exact .transposition hk hx

end Node

namespace Tree

theorem names_eq (t : Tree) : t.names = Node.namesOf t.labels := rfl

/-- Where no node occurs twice, a node below one operand is neither the parent nor below another one. -/
theorem mem_ids_sibling {id i : NodeId} {n : Node} {l r : List Tree} {u v : Tree}
    (hnd : (Tree.node id n (l ++ u :: r)).ids.Nodup) (hv : v ∈ l ++ r) (hi : i ∈ v.ids) :
    i ∈ (Tree.node id n (l ++ u :: r)).ids ∧ i ≠ id ∧ i ∉ u.ids := by
  have hvi : i ∈ l.flatMap Tree.ids ∨ i ∈ r.flatMap Tree.ids := by
    rw [List.mem_append] at hv
    exact hv.imp (fun h => List.mem_flatMap.mpr ⟨v, h, hi⟩) fun h => List.mem_flatMap.mpr ⟨v, h, hi⟩
  simp only [ids_node, List.flatMap_append, List.flatMap_cons, List.nodup_cons, List.mem_append,
    not_or, List.nodup_append, List.mem_cons] at hnd ⊢
  refine ⟨by tauto, ?_, fun hu => ?_⟩
  · rintro rfl
    exact hvi.elim hnd.1.1 hnd.1.2.2
  · rcases hvi with hl | hr
    · exact hnd.2.2.2 i hl i (.inl hu) rfl
    · exact hnd.2.2.1.2.2 i hu i hr rfl

/-- The tree `t'` is `t` with the subtree `x` at a slot replaced by `s`. -/
inductive Rewrites (Q : Node → Prop) (x s : Tree) : Slot → Tree → Tree → Prop
  | root : Rewrites Q x s .root x s
  | here {id : NodeId} {n : Node} {l r : List Tree} : Q n →
    Rewrites Q x s (.operand id l.length) (.node id n (l ++ x :: r))
      (.node id { n with operands := n.operands.set l.length s.root } (l ++ s :: r))
  | deeper {id : NodeId} {n : Node} {l r : List Tree} {u u' : Tree} {parent : NodeId} {k : Nat} :
    Q n → Rewrites Q x s (.operand parent k) u u' →
    Rewrites Q x s (.operand parent k) (.node id n (l ++ u :: r)) (.node id n (l ++ u' :: r))

namespace Rewrites

variable {Q : Node → Prop} {x s t t' : Tree} {slot : Slot} {parent : NodeId} {k : Nat}

theorem mono {Q' : Node → Prop} (h : Rewrites Q x s slot t t') (hQ : ∀ n, Q n → Q' n) :
    Rewrites Q' x s slot t t' := by
  induction h with
  | root => exact .root
  | here hn => exact .here (hQ _ hn)
  | deeper hn _ ih => exact .deeper (hQ _ hn) ih

/-- Any other tree can be put at the place too. -/
theorem other (h : Rewrites Q x s slot t t') (s₂ : Tree) : ∃ t₂, Rewrites Q x s₂ slot t t₂ := by
  induction h with
  | root => exact ⟨s₂, .root⟩
  | here hn => exact ⟨_, .here hn⟩
  | deeper hn _ ih =>
    obtain ⟨u₂, h₂⟩ := ih
    exact ⟨_, .deeper hn h₂⟩

/-- An operand of the tree at a place has a place too. -/
theorem descend {id : NodeId} {n : Node} {l r : List Tree} {u : Tree} (h : Rewrites Q x s slot t t')
    (hx : x = .node id n (l ++ u :: r)) (s₂ : Tree) :
    ∃ t₂, Rewrites (fun _ => True) u s₂ (.operand id l.length) t t₂ := by
  subst hx
  induction h with
  | root => exact ⟨_, .here trivial⟩
  | here => exact ⟨_, .deeper trivial (.here trivial)⟩
  | deeper _ _ ih =>
    obtain ⟨t₂, h₂⟩ := ih
    exact ⟨_, .deeper trivial h₂⟩

theorem root_eq (h : Rewrites Q x s (.operand parent k) t t') : t'.root = t.root := by
  cases h <;> rfl

theorem kind_eq (h : Rewrites Q x s (.operand parent k) t t') : t'.kind = t.kind := by
  cases h <;> rfl

theorem ids (h : Rewrites Q x s slot t t') :
    ∃ A B, t.ids = A ++ x.ids ++ B ∧ t'.ids = A ++ s.ids ++ B := by
  induction h with
  | root => exact ⟨[], [], by simp, by simp⟩
  | @here id n l r _ =>
    exact ⟨id :: l.flatMap Tree.ids, r.flatMap Tree.ids, by simp, by simp⟩
  | @deeper id n l r u u' _ _ _ _ ih =>
    obtain ⟨A, B, h₁, h₂⟩ := ih
    exact ⟨id :: l.flatMap Tree.ids ++ A, B ++ r.flatMap Tree.ids, by simp [h₁], by simp [h₂]⟩

theorem labels (h : Rewrites Q x s slot t t') :
    ∃ A A' B, t.labels = A ++ x.labels ++ B ∧ t'.labels = A' ++ s.labels ++ B ∧
      List.Forall₂ Node.Alike A A' := by
  induction h with
  | root => exact ⟨[], [], [], by simp, by simp, .nil⟩
  | @here id n l r _ =>
    refine ⟨n :: l.flatMap Tree.labels, _ :: l.flatMap Tree.labels, r.flatMap Tree.labels,
      by simp, by simp; rfl, .cons (Node.alike_operands _ _) ?_⟩
    exact List.forall₂_same.mpr fun m _ => .refl m
  | @deeper id n l r u u' _ _ _ _ ih =>
    obtain ⟨A, A', B, h₁, h₂, h₃⟩ := ih
    refine ⟨n :: l.flatMap Tree.labels ++ A, n :: l.flatMap Tree.labels ++ A',
      B ++ r.flatMap Tree.labels, by simp [h₁], by simp [h₂], ?_⟩
    exact List.rel_append (List.forall₂_same.mpr fun m _ => .refl m) h₃

theorem names (h : Rewrites Q x s slot t t') :
    ∃ A B, t.names = A ++ x.names ++ B ∧ t'.names = A ++ s.names ++ B := by
  obtain ⟨A, A', B, h₁, h₂, h₃⟩ := h.labels
  refine ⟨Node.namesOf A, Node.namesOf B, ?_, ?_⟩
  · rw [names_eq, h₁, Node.namesOf_append, Node.namesOf_append, names_eq]
  · rw [names_eq, h₂, Node.namesOf_append, Node.namesOf_append, names_eq, Node.namesOf_alike h₃]

theorem parent_mem (h : Rewrites Q x s (.operand parent k) t t') : parent ∈ t.ids := by
  generalize hslot : Slot.operand parent k = slot at h
  induction h with
  | root => cases hslot
  | here =>
    cases hslot
    simp
  | @deeper id n l r u u' _ _ _ _ ih =>
    rw [ids_node]
    exact List.mem_cons_of_mem _ (List.mem_flatMap.mpr ⟨u, by simp, ih hslot⟩)

theorem ids_subset (h : Rewrites Q x s slot t t') : ∀ i ∈ x.ids, i ∈ t.ids := by
  obtain ⟨A, B, h₁, _⟩ := h.ids
  intro i hi
  rw [h₁]
  simp [hi]

theorem parent_notMem (h : Rewrites Q x s (.operand parent k) t t') (hnd : t.ids.Nodup) :
    parent ∉ x.ids := by
  generalize hslot : Slot.operand parent k = slot at h
  induction h with
  | root => cases hslot
  | @here id n l r _ =>
    cases hslot
    simp only [ids_node, List.flatMap_append, List.flatMap_cons, List.nodup_cons,
      List.mem_append, not_or] at hnd
    exact hnd.1.2.1
  | @deeper id n l r u u' _ _ _ _ ih =>
    simp only [ids_node, List.flatMap_append, List.flatMap_cons, List.nodup_cons,
      List.nodup_append] at hnd
    exact ih hnd.2.2.1.1 hslot

/-- Putting a node at a slot rewrites the stored tree. The nodes of the replaced subtree may change
in any way. -/
theorem storedIn {nodes nodes' : Array Node} (h : Rewrites Q x s slot t t')
    (ht : t.StoredIn nodes) (hnd : t.ids.Nodup) (hs : s.StoredIn nodes')
    (hframe : ∀ i ∈ t.ids, i ∉ x.ids → (∀ k, slot ≠ .operand i k) → nodes'[i]? = nodes[i]?)
    (hparent : ∀ parent k, slot = .operand parent k → nodes'[parent]? =
      nodes[parent]?.map fun n => { n with operands := n.operands.set k s.root }) :
    t'.StoredIn nodes' := by
  induction h with
  | root => exact hs
  | @here id n l r _ =>
    have hsib : ∀ u ∈ l ++ r, u.StoredIn nodes' := by
      intro u hu
      refine (ht.operand (t := u) (by simp at hu ⊢; tauto)).frame fun i hi => ?_
      obtain ⟨hmem, hne, hx⟩ := mem_ids_sibling hnd hu hi
      refine hframe i hmem hx ?_
      rintro k ⟨⟩
      exact hne rfl
    rw [List.forall_mem_append] at hsib
    refine .node ?_ ?_ (List.forall_mem_append.mpr ⟨hsib.1, List.forall_mem_cons.mpr ⟨hs, hsib.2⟩⟩)
    · rw [hparent id l.length rfl, ht.node_eq]
      rfl
    · rw [ht.operands_eq]
      simp [List.set_append_right]
  | @deeper id n l r u u' parent k _ hrw ih =>
    have hu : u.StoredIn nodes := ht.operand (by simp)
    have hpar := hrw.parent_mem
    have hsub := hrw.ids_subset
    have hsib : ∀ v ∈ l ++ r, v.StoredIn nodes' := by
      intro v hv
      refine (ht.operand (t := v) (by simp at hv ⊢; tauto)).frame fun i hi => ?_
      obtain ⟨hmem, -, hne⟩ := mem_ids_sibling hnd hv hi
      refine hframe i hmem (fun hx => hne (hsub i hx)) ?_
      rintro k ⟨⟩
      exact hne hpar
    simp only [ids_node, List.flatMap_append, List.flatMap_cons, List.nodup_cons, List.mem_append,
      not_or, List.nodup_append] at hnd
    have hu' : u'.StoredIn nodes' :=
      ih hu hnd.2.2.1.1 (fun i hi => hframe i (by simp [hi])) hparent
    rw [List.forall_mem_append] at hsib
    refine .node ?_ ?_ (List.forall_mem_append.mpr ⟨hsib.1, List.forall_mem_cons.mpr ⟨hu', hsib.2⟩⟩)
    · rw [hframe id (by simp) (fun hx => hnd.1.2.1 (hsub id hx)) ?_]
      · exact ht.node_eq
      · rintro k ⟨⟩
        exact hnd.1.2.1 hpar
    · rw [ht.operands_eq]
      simp [hrw.root_eq]

/-- The node at the slot. -/
theorem operand_eq {nodes : Array Node} (h : Rewrites Q x s (.operand parent k) t t')
    (ht : t.StoredIn nodes) :
    ∃ n, nodes[parent]? = some n ∧ n.operands[k]? = some x.root := by
  generalize hslot : Slot.operand parent k = slot at h
  induction h with
  | root => cases hslot
  | @here id n l r _ =>
    cases hslot
    exact ⟨n, ht.node_eq, by simp [ht.operands_eq]⟩
  | deeper _ _ ih => exact ih (ht.operand (by simp)) hslot

theorem subtree {nodes : Array Node} (h : Rewrites Q x s slot t t') (ht : t.StoredIn nodes) :
    x.StoredIn nodes := by
  induction h with
  | root => exact ht
  | here => exact ht.operand (by simp)
  | deeper _ _ ih => exact ih (ht.operand (by simp))

theorem typed_subtree {C : Node → Prop} {S : Shapes} (h : Rewrites Q x s slot t t')
    (ht : t.Typed C S) : x.Typed C S := by
  induction h with
  | root => exact ht
  | here =>
    cases ht with
    | node _ _ hts => exact hts _ (by simp)
  | deeper _ _ ih =>
    cases ht with
    | node _ _ hts => exact ih (hts _ (by simp))

/-- A tree stays well-shaped when a subtree is replaced by one of the same shape. -/
theorem typed {C : Node → Prop} {S : Shapes} (h : Rewrites Q x s slot t t')
    (hC : ∀ n ops, C n → C { n with operands := ops }) (ht : t.Typed C S) (hs : s.Typed C S)
    (hshape : s.shape = x.shape) : t'.Typed C S ∧ t'.shape = t.shape := by
  induction h with
  | root => exact ⟨hs, hshape⟩
  | @here id n l r _ =>
    cases ht with
    | node hn hfits hts =>
      refine ⟨.node (hC _ _ hn) ?_ ?_, rfl⟩
      · have hmap : (l ++ s :: r).map Tree.shape = (l ++ x :: r).map Tree.shape := by simp [hshape]
        rw [hmap]
        exact hfits.alike (Node.alike_operands _ _) fun _ => by simp
      · intro u hu
        rw [List.mem_append, List.mem_cons] at hu
        rcases hu with hu | rfl | hu
        · exact hts u (by simp [hu])
        · exact hs
        · exact hts u (by simp [hu])
  | @deeper id n l r u u' _ _ _ _ ih =>
    cases ht with
    | node hn hfits hts =>
      obtain ⟨h₁, h₂⟩ := ih (hts u (by simp))
      refine ⟨.node hn ?_ ?_, rfl⟩
      · have hmap : (l ++ u' :: r).map Tree.shape = (l ++ u :: r).map Tree.shape := by simp [h₂]
        rwa [hmap]
      · intro v hv
        rw [List.mem_append, List.mem_cons] at hv
        rcases hv with hv | rfl | hv
        · exact hts v (by simp [hv])
        · exact h₁
        · exact hts v (by simp [hv])

end Rewrites

theorem getElem?_append_cons {β : Type _} {l r : List β} {x y a b : β} {j : Nat}
    (h : (l ++ x :: r)[j]? = some a) (h' : (l ++ y :: r)[j]? = some b) :
    (a = x ∧ b = y) ∨ (b = a ∧ a ∈ l ++ r) := by
  rw [List.getElem?_append] at h h'
  by_cases hj : j < l.length
  · rw [if_pos hj] at h h'
    rw [h] at h'
    cases h'
    exact .inr ⟨rfl, List.mem_append_left _ (List.mem_of_getElem? h)⟩
  · rw [if_neg hj] at h h'
    cases hk : j - l.length with
    | zero =>
      rw [hk] at h h'
      cases h
      cases h'
      exact .inl ⟨rfl, rfl⟩
    | succ k =>
      rw [hk, List.getElem?_cons_succ] at h h'
      rw [h] at h'
      cases h'
      exact .inr ⟨rfl, List.mem_append_right _ (List.mem_of_getElem? h)⟩

/-- Replacing a subtree by one of the same value keeps the value. -/
theorem Rewrites.eval_eq {α : Type} [Scalar α] {C : Node → Prop} {S S' : Shapes}
    {cells cells' : Cells α} {Q : Node → Prop} {x s t t' : Tree} {slot : Slot}
    (h : Rewrites Q x s slot t t') (hnonneg : ∀ n, C n → ∀ d ∈ n.shape, 0 ≤ d)
    (ht : t.Typed C S) (ht' : t'.Typed C S') (hshape : s.shape = x.shape)
    (hcells : ∀ name ∈ t.names, cells name = cells' name)
    (hx : ∀ idx, InRange x.shape idx → x.eval cells idx = s.eval cells' idx)
    {idx : List Int} (hidx : InRange t.shape idx) : t.eval cells idx = t'.eval cells' idx := by
  -- at a node above the place, all operands but one are unchanged
  have step : ∀ {id : NodeId} {n n' : Node} {l r : List Tree} {u u' : Tree} {idx : List Int},
      n.Alike n' → (Tree.node id n (l ++ u :: r)).Typed C S →
      (Tree.node id n' (l ++ u' :: r)).Typed C S' →
      (∀ name ∈ (Tree.node id n (l ++ u :: r)).names, cells name = cells' name) →
      u'.shape = u.shape → (∀ idx, InRange u.shape idx → u.eval cells idx = u'.eval cells' idx) →
      InRange n.shape idx → (Tree.node id n (l ++ u :: r)).eval cells idx =
        (Tree.node id n' (l ++ u' :: r)).eval cells' idx := by
    intro id n n' l r u u' idx hn ht ht' hcells hsh hu hidx
    have hleaf : n.kind.isLeaf = false := by
      cases ht with
      | node _ hfits _ =>
        generalize hshapes : (l ++ u :: r).map Tree.shape = shapes at hfits
        cases hfits with
        | identifier | constant => simp at hshapes
        | elementwise hk => exact NodeKind.isLeaf_of_elementwise hk
        | scalarMul hk | scalarDiv hk | product hk | contraction hk | stack hk
        | transposition hk => rw [hk]; rfl
    refine eval_congr_operands hnonneg hn ht ht' hleaf hidx (by simp [hsh]) ?_
    intro con ops j v v' i hcon hops hj hj' hi
    obtain ⟨ops', h₁, h₂⟩ := ht.operandIndices hleaf hidx hcon
    rw [hops] at h₁
    cases h₁
    obtain ⟨i', hi', hr⟩ := forall₂_getElem? h₂ hj
    rw [hi] at hi'
    cases hi'
    rcases getElem?_append_cons hj hj' with ⟨rfl, rfl⟩ | ⟨rfl, hmem⟩
    · exact hu i hr
    · have heq := @eval_congr_names _ _ cells cells' v' fun name hname =>
        hcells name (by
          rw [names_node]
          refine List.mem_append_right _ (List.mem_flatMap.mpr ⟨v', ?_, hname⟩)
          simp only [List.mem_append, List.mem_cons] at hmem ⊢
          tauto)
      rw [heq]
  induction h generalizing idx with
  | root => exact hx idx hidx
  | here => exact step (Node.alike_operands _ _) ht ht' hcells hshape hx hidx
  | @deeper id n l r u u' _ _ _ hrw ih =>
    have hu : u.Typed C S := by
      cases ht with
      | node _ _ hts => exact hts u (by simp)
    have hu' : u'.Typed C S' := by
      cases ht' with
      | node _ _ hts => exact hts u' (by simp)
    have hsh : u'.shape = u.shape := by
      cases hrw <;> rfl
    refine step (.refl n) ht ht' hcells hsh (fun i hi => ih hu hu' (fun name hname => ?_) hi) hidx
    refine hcells name ?_
    rw [names_node]
    exact List.mem_append_right _ (List.mem_flatMap.mpr ⟨u, by simp, hname⟩)

/-! ## Finding a place -/

section
variable {nodes : Array Node} {selects : Slot → Node → Bool} {sel : Node → Bool}

/-- A search finds a place of a selected node that can be rewritten, no node above which is
selected, or no node is selected. -/
def Finds (sel : Node → Bool) (found : Option (Option Slot)) (t : Tree) : Prop :=
  ∃ parent k x t', found = some (some (.operand parent k)) ∧ (∃ n ∈ x.label?, sel n = true) ∧
    Rewrites (fun n => sel n = false) x x (.operand parent k) t t'

theorem findOperands_cases {id : NodeId} {n : Node} {Q : Node → Prop} (hn : Q n)
    (hQ : ∀ n, sel n = false → Q n) {ts : List Tree}
    (ih : ∀ t ∈ ts, ∀ parent k,
      (t.findFrom selects (.operand parent k) = some none ∧ ∀ n ∈ t.labels, sel n = false) ∨
      (t.findFrom selects (.operand parent k) = some (some (.operand parent k)) ∧
        ∃ n ∈ t.label?, sel n = true) ∨
      Finds sel (t.findFrom selects (.operand parent k)) t) :
    (findOperands selects id 0 ts = some none ∧ ∀ n ∈ ts.flatMap Tree.labels, sel n = false) ∨
      ∃ parent k x t', findOperands selects id 0 ts = some (some (.operand parent k)) ∧
        (∃ n ∈ x.label?, sel n = true) ∧
        Rewrites Q x x (.operand parent k) (.node id n ts) t' := by
  suffices H : ∀ rest l, ts = l ++ rest →
      (findOperands selects id l.length rest = some none ∧
        ∀ n ∈ rest.flatMap Tree.labels, sel n = false) ∨
      ∃ parent k x t', findOperands selects id l.length rest = some (some (.operand parent k)) ∧
        (∃ n ∈ x.label?, sel n = true) ∧
        Rewrites Q x x (.operand parent k) (.node id n ts) t' from H ts [] rfl
  intro rest
  induction rest with
  | nil => exact fun _ _ => .inl ⟨rfl, by simp⟩
  | cons u rest ihr =>
    intro l hts
    have hu := ih u (by simp [hts]) id l.length
    rcases hu with ⟨hf, hall⟩ | ⟨hf, hu⟩ | ⟨parent, k, x, u', hf, hx, hrw⟩
    · have hlen : l.length + 1 = (l ++ [u]).length := by simp
      have hrest := ihr (l ++ [u]) (by simp [hts])
      simp only [findOperands, hf, Option.bind_eq_bind, Option.bind_some, hlen]
      refine hrest.imp_left fun h => ⟨h.1, fun m hm => ?_⟩
      rw [List.flatMap_cons, List.mem_append] at hm
      exact hm.elim (hall m) (h.2 m)
    · subst hts
      refine .inr ⟨id, l.length, u, _, ?_, hu, .here hn⟩
      simp only [findOperands, hf, Option.bind_eq_bind, Option.bind_some]
      rfl
    · subst hts
      refine .inr ⟨parent, k, x, _, ?_, hx, .deeper hn (hrw.mono hQ)⟩
      simp only [findOperands, hf, Option.bind_eq_bind, Option.bind_some]
      rfl

theorem StoredIn.findFrom_cases (hsel : ∀ parent k n, selects (.operand parent k) n = sel n)
    {t : Tree} (ht : t.StoredIn nodes) (parent : NodeId) (k : Nat) :
    (t.findFrom selects (.operand parent k) = some none ∧ ∀ n ∈ t.labels, sel n = false) ∨
      (t.findFrom selects (.operand parent k) = some (some (.operand parent k)) ∧
        ∃ n ∈ t.label?, sel n = true) ∨
      Finds sel (t.findFrom selects (.operand parent k)) t := by
  induction ht generalizing parent k with
  | @node id n ts _ _ _ ih =>
    cases hn : sel n with
    | true => exact .inr (.inl ⟨by simp [findFrom, hsel, hn], n, rfl, hn⟩)
    | false =>
      simp only [findFrom, hsel, hn, Bool.false_eq_true, if_false]
      rcases findOperands_cases hn (fun _ h => h) ih with ⟨hf, hall⟩ | h
      · refine .inl ⟨hf, fun m hm => ?_⟩
        rw [labels_node, List.mem_cons] at hm
        rcases hm with rfl | hm
        · exact hn
        · exact hall m hm
      · exact .inr (.inr h)

/-- The search from the root on, when the root itself is not selected. -/
theorem StoredIn.find_cases (sel : Node → Bool)
    (hsel : ∀ parent k n, selects (.operand parent k) n = sel n)
    {id : NodeId} {n : Node} {ts : List Tree} (ht : (Tree.node id n ts).StoredIn nodes)
    (hroot : selects .root n = false) {Q : Node → Prop} (hn : Q n)
    (hQ : ∀ n, sel n = false → Q n) :
    ((Tree.node id n ts).find selects = some none ∧ ∀ n ∈ ts.flatMap Tree.labels, sel n = false) ∨
      ∃ parent k x t', (Tree.node id n ts).find selects = some (some (.operand parent k)) ∧
        (∃ n ∈ x.label?, sel n = true) ∧
        Rewrites Q x x (.operand parent k) (.node id n ts) t' := by
  simp only [find, findFrom, hroot, Bool.false_eq_true, if_false]
  exact findOperands_cases hn hQ fun t h => (ht.operand h).findFrom_cases hsel

end

end Tree

end LoopNest
