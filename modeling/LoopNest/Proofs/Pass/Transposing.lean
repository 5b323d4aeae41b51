import Mathlib.Algebra.GroupWithZero.Nat
import LoopNest.Pass.Untranspose
import LoopNest.Proofs.Pass.Aliasing

/-!
# Pushing a transposition down

One step of the resolution of transpositions: the transposition at a place and the node below it
are replaced by an expression of the same value whose transpositions stand above less (`push_spec`).
The swaps of a product are split when they do not mix its operands (`splitSwaps_spec`).
-/

namespace LoopNest.Pass

/-! ## Swaps of a product -/

theorem nodup_range_ofNat (n : Nat) : ((List.range n).map Int.ofNat).Nodup :=
  List.Nodup.map (fun _ _ h => Int.ofNat.inj h) List.nodup_range

/-- The swaps of the operands do to the operands what the given swaps do to the product. -/
def SplitsTo (pairs : List Swap) (m n : Nat) (lhs rhs : List Swap) : Prop :=
  ∀ {τ : Type} (A B : List τ), A.length = m → B.length = n →
    ∃ A' B', forward lhs A = some A' ∧ forward rhs B = some B' ∧
      forward pairs (A ++ B) = some (A' ++ B')

theorem perm_of_not_mixed {perm : List Int} {m n : Nat}
    (hperm : perm.Perm ((List.range (m + n)).map Int.ofNat))
    (hmix : ∀ (ax : Int) (i : Nat), perm[i]? = some ax → (i < m ↔ ax < m)) :
    (perm.take m).Perm ((List.range m).map Int.ofNat) ∧
      ((perm.drop m).map (· - (m : Int))).Perm ((List.range n).map Int.ofNat) := by
  have hlen : perm.length = m + n := by simpa using hperm.length_eq
  have hnd : perm.Nodup := hperm.nodup_iff.mpr (nodup_range_ofNat _)
  have hrange : ∀ (k : Nat) (ax : Int), ax ∈ (List.range k).map Int.ofNat ↔ 0 ≤ ax ∧ ax < k := by
    intro k ax
    simp only [List.mem_map, List.mem_range]
    constructor
    · rintro ⟨a, ha, rfl⟩
      exact ⟨Int.natCast_nonneg a, by simpa using ha⟩
    · rintro ⟨hlo, hhi⟩
      exact ⟨ax.toNat, by omega, Int.toNat_of_nonneg hlo⟩
  have hmem : ∀ ax : Int, ax ∈ perm ↔ 0 ≤ ax ∧ ax < ((m + n : Nat) : Int) := fun ax => by
    rw [hperm.mem_iff, hrange]
  constructor
  · refine (List.perm_ext_iff_of_nodup (hnd.sublist (List.take_sublist _ _))
      (nodup_range_ofNat _)).mpr fun ax => ?_
    rw [hrange, List.mem_iff_getElem?]
    constructor
    · rintro ⟨i, hi⟩
      rw [List.getElem?_take] at hi
      split at hi
      · exact ⟨((hmem ax).mp (List.mem_of_getElem? hi)).1, (hmix ax i hi).mp ‹_›⟩
      · cases hi
    · rintro ⟨hlo, hhi⟩
      obtain ⟨i, hi⟩ := List.mem_iff_getElem?.mp ((hmem ax).mpr ⟨hlo, by omega⟩)
      exact ⟨i, by rw [List.getElem?_take, if_pos ((hmix ax i hi).mpr hhi), hi]⟩
  · have hinj : Function.Injective (· - (m : Int)) := fun a b h => by
      have : a - (m : Int) = b - m := h
      omega
    refine (List.perm_ext_iff_of_nodup ((hnd.sublist (List.drop_sublist _ _)).map hinj)
      (nodup_range_ofNat _)).mpr fun v => ?_
    rw [hrange, List.mem_map]
    constructor
    · rintro ⟨ax, hax, rfl⟩
      obtain ⟨i, hi⟩ := List.mem_iff_getElem?.mp hax
      rw [List.getElem?_drop] at hi
      have hbound := (hmem ax).mp (List.mem_of_getElem? hi)
      have hlow := mt (hmix ax (m + i) hi).mpr (by omega)
      exact ⟨by omega, by omega⟩
    · rintro ⟨hlo, hhi⟩
      obtain ⟨i, hi⟩ := List.mem_iff_getElem?.mp ((hmem (v + m)).mpr ⟨by omega, by omega⟩)
      have him : ¬ i < m := mt (hmix (v + m) i hi).mp (by omega)
      refine ⟨v + m, List.mem_iff_getElem?.mpr ⟨i - m, ?_⟩, by omega⟩
      rw [List.getElem?_drop, show m + (i - m) = i by omega, hi]

/-- The split has a result. When it splits, the parts do what the whole does. -/
theorem splitSwaps_spec {τ : Type} {pairs : List Swap} {m n : Nat} {l l' : List τ}
    (h : forward pairs l = some l') (hlen : l.length = m + n) :
    ∃ res, splitSwaps pairs (m + n) m = some res ∧
      ∀ lhs rhs, res = some (lhs, rhs) → SplitsTo pairs m n lhs rhs := by
  obtain ⟨perm, hfwd⟩ := exists_forward_of_length (m := (List.range (m + n)).map Int.ofNat) h
    (by simp [hlen])
  unfold splitSwaps
  simp only [hfwd, Option.bind_eq_bind, Option.bind_some, Option.pure_def]
  split
  · exact ⟨none, rfl, by simp⟩
  rename_i hmix
  rw [if_neg (by omega)]
  have hperm := perm_forward hfwd
  obtain ⟨hlhs, hrhs⟩ := perm_of_not_mixed hperm fun ax i hi => by
    by_contra hne
    refine hmix (List.any_eq_true.mpr ⟨(ax, i), List.mem_zipIdx_iff_getElem?.mpr hi, ?_⟩)
    rw [bne_iff_ne, ne_eq, decide_eq_decide]
    exact hne
  obtain ⟨lhs, hl, hlf⟩ := permutationSwaps_spec hlhs
  obtain ⟨rhs, hr, hrf⟩ := permutationSwaps_spec hrhs
  refine ⟨some (lhs, rhs), by rw [hl, Option.bind_some, hr, Option.bind_some], ?_⟩
  rintro _ _ ⟨⟩ τ A B rfl rfl
  obtain ⟨A', hA', hrelA⟩ := forward_rel (forall₂_at? A) hlf
  obtain ⟨B', hB', hrelB⟩ := forward_rel (forall₂_at? B) hrf
  obtain ⟨M, hM, hrel⟩ := forward_rel (List.length_append ▸ forall₂_at? (A ++ B)) hfwd
  refine ⟨A', B', hA', hB', ?_⟩
  rw [hM, forall₂_at?_unique hrel ?_]
  rw [← List.take_append_drop A.length perm]
  refine List.rel_append (hrelA.imp fun ax x hx => ?_)
    ((List.forall₂_map_left_iff.mp hrelB).imp fun ax x hx => ?_)
  · obtain ⟨hlo, hget⟩ := at?_eq_some_iff.mp hx
    refine at?_eq_some_iff.mpr ⟨hlo, ?_⟩
    rw [List.getElem?_append_left (List.getElem?_eq_some_iff.mp hget).1, hget]
  · obtain ⟨hlo, hget⟩ := at?_eq_some_iff.mp hx
    refine at?_eq_some_iff.mpr ⟨by omega, ?_⟩
    rw [List.getElem?_append_right (by omega), ← hget]
    congr 1
    omega

/-! ## Turned operands -/

variable {N : NodeClass} {S : Shapes} {p : Program}

/-- The node of a transposition. -/
def turn (pairs : List Swap) (shape : Shape) (operand : NodeId) : Node :=
  { kind := .transposition, shape, operands := [operand], pairs }

/-- The tree `v` is `u` below a transposition, or `u` itself when there is nothing to swap. -/
inductive Turned (pairs : List Swap) (u : Tree) : Tree → Prop
  | turn {id : NodeId} {shape : Shape} : forward pairs u.shape = some shape →
    Turned pairs u (.node id (turn pairs shape u.root) [u])
  | same : pairs = [] → Turned pairs u u

namespace Turned

variable {pairs : List Swap} {u v : Tree}

theorem shape (h : Turned pairs u v) : forward pairs u.shape = some v.shape := by
  cases h with
  | turn h => exact h
  | same h => rw [h]; rfl

theorem names (h : Turned pairs u v) : v.names = u.names := by
  cases h with
  | turn => simp [Tree.names_node, Pass.turn]
  | same => rfl

theorem typed (h : Turned pairs u v) (hu : u.Typed N.Admits S) : v.Typed N.Admits S := by
  cases h with
  | @turn id shape h =>
    refine .node ⟨N.perm hu.mem (perm_forward h), by simp [Pass.turn]⟩ ?_ (by simpa using hu)
    exact .transposition rfl h
  | same => exact hu

theorem eval {α : Type} [Scalar α] (h : Turned pairs u v) (σ : Cells α) {idx idx' : List Int}
    (hidx : forward pairs idx' = some idx) : v.eval σ idx = u.eval σ idx' := by
  cases h with
  | turn => exact Tree.eval_transposition rfl (backward_eq_some_of_forward hidx)
  | same h =>
    rw [h] at hidx
    cases hidx
    rfl

theorem kinds (h : Turned pairs u v) {n : Node} (hn : n ∈ v.labels) :
    n.kind = .transposition ∨ n ∈ u.labels := by
  cases h with
  | turn =>
    rw [Tree.labels_node, List.mem_cons] at hn
    rcases hn with rfl | hn
    · exact .inl rfl
    · exact .inr (by simpa using hn)
  | same => exact .inr hn

end Turned

/-! ## The weight of transpositions -/

theorem treeSizes_eq (ts : List Tree) : treeSizes ts = (ts.map treeSize).sum := by
  induction ts with
  | nil => rfl
  | cons t ts ih => rw [treeSizes, ih, List.map_cons, List.sum_cons]

mutual
/-- The sum of the sizes of what stands below transpositions. -/
def weight : Tree → Nat
  | .missing => 0
  | .node _ n ts => (if n.kind = .transposition then treeSizes ts else 0) + weights ts

/-- The weights of several trees. -/
def weights : List Tree → Nat
  | [] => 0
  | t :: ts => weight t + weights ts
end

theorem weights_eq (ts : List Tree) : weights ts = (ts.map weight).sum := by
  induction ts with
  | nil => rfl
  | cons t ts ih => rw [weights, ih, List.map_cons, List.sum_cons]

theorem weight_node (id : NodeId) (n : Node) (ts : List Tree) :
    weight (.node id n ts) =
      (if n.kind = .transposition then (ts.map treeSize).sum else 0) + (ts.map weight).sum := by
  rw [weight, treeSizes_eq, weights_eq]

theorem treeSize_node (id : NodeId) (n : Node) (ts : List Tree) :
    treeSize (.node id n ts) = 1 + (ts.map treeSize).sum := by
  rw [treeSize, treeSizes_eq]

theorem treeSize_pos (t : Tree) : 0 < treeSize t := by
  cases t <;> simp only [treeSize] <;> omega

theorem Turned.weight_le {pairs : List Swap} {u v : Tree} (h : Turned pairs u v) :
    weight v ≤ treeSize u + weight u := by
  cases h with
  | turn => simp [weight_node, Pass.turn]
  | same => exact Nat.le_add_left _ _

/-- Where no transposition stands above, weights add up. -/
theorem weight_rewrites {x s t t' : Tree} {slot : Slot}
    (h : Tree.Rewrites (fun n => n.kind ≠ .transposition) x s slot t t') :
    weight t' + weight x = weight t + weight s := by
  induction h with
  | root => exact Nat.add_comm _ _
  | here hn =>
    simp only [weight_node, hn, if_false, List.map_append, List.map_cons, List.sum_append,
      List.sum_cons]
    omega
  | deeper hn _ ih =>
    simp only [weight_node, hn, if_false, List.map_append, List.map_cons, List.sum_append,
      List.sum_cons]
    omega

theorem treeSize_rewrites {Q : Node → Prop} {x s t t' : Tree} {slot : Slot}
    (h : Tree.Rewrites Q x s slot t t') : treeSize t' + treeSize x = treeSize t + treeSize s := by
  induction h with
  | root => exact Nat.add_comm _ _
  | here =>
    simp only [treeSize_node, List.map_append, List.map_cons, List.sum_append, List.sum_cons]
    omega
  | deeper _ _ ih =>
    simp only [treeSize_node, List.map_append, List.map_cons, List.sum_append, List.sum_cons]
    omega

/-- The operand of a transposition becomes smaller. -/
theorem weight_hoisted {Q : Node → Prop} {x s t t' : Tree} {nodes : Array Node} {parent : NodeId}
    {k : Nat} {n : Node} (h : Tree.Rewrites Q x s (.operand parent k) t t')
    (ht : t.StoredIn nodes) (hn : nodes[parent]? = some n) (hkind : n.kind = .transposition)
    (hsize : treeSize s ≤ treeSize x) :
    weight t' + weight x + treeSize x ≤ weight t + weight s + treeSize s := by
  generalize hslot : Slot.operand parent k = slot at h
  induction h with
  | root => cases hslot
  | @here id m l r _ =>
    cases hslot
    obtain rfl : m = n := Option.some.inj (ht.node_eq.symm.trans hn)
    simp only [weight_node, hkind, if_true, List.map_append, List.map_cons, List.sum_append,
      List.sum_cons]
    omega
  | @deeper id m l r u u' _ _ _ hu ih =>
    have hw := ih (ht.operand (by simp)) hslot
    have hsizes := treeSize_rewrites hu
    simp only [weight_node, List.map_append, List.map_cons, List.sum_append, List.sum_cons]
    split <;> omega

/-! ## One step -/

/-- A transposition with what stands below it may be replaced by an expression of less weight. -/
structure Pushes (N : NodeClass) (S : Shapes) (x s : Tree) : Prop where
  typed : s.Typed N.Admits S
  shape : s.shape = x.shape
  names : s.names = x.names
  kinds : ∀ n ∈ s.labels, n.kind = .transposition ∨ ∃ m ∈ x.labels, m.kind = n.kind
  weight : weight s < weight x
  eval : ∀ {α : Type} [Scalar α] (σ : Cells α) idx, InRange x.shape idx → x.eval σ idx = s.eval σ idx

section
variable {tid xid : NodeId} {tn un : Node} {us : List Tree}

/-- What is known of a transposition and its operand. -/
theorem transposition_typed (h : (Tree.node tid tn us).Typed N.Admits S)
    (hkind : tn.kind = .transposition) :
    ∃ u, us = [u] ∧ forward tn.pairs u.shape = some tn.shape ∧ u.Typed N.Admits S := by
  cases h with
  | node hC hfits hts =>
    generalize hss : us.map Tree.shape = ss at hfits
    cases hfits with
    | transposition _ hfwd =>
      obtain ⟨u, rfl, rfl⟩ := Tree.map_eq_single hss
      exact ⟨u, rfl, hfwd, hts u (.head _)⟩
    | _ => simp_all [NodeKind.isElementwise]

theorem eval_turned {α : Type} [Scalar α] {u : Tree} (hkind : tn.kind = .transposition)
    (hfwd : forward tn.pairs u.shape = some tn.shape) (σ : Cells α) {idx : List Int}
    (hidx : InRange tn.shape idx) (tid : NodeId) :
    ∃ idx', forward tn.pairs idx' = some idx ∧ InRange u.shape idx' ∧
      (Tree.node tid tn [u]).eval σ idx = u.eval σ idx' := by
  obtain ⟨idx', hback, hin⟩ := hidx.backward (backward_eq_some_of_forward hfwd)
  exact ⟨idx', backward_eq_some_iff.mp hback, hin, Tree.eval_transposition hkind hback⟩

/-- An identifier takes up the swaps, behind its fixed indices. -/
theorem pushes_ident (hN : N.Numbered) (hS : ∀ name stored, S name = some stored → N.Mem stored)
    (view : NodeId) (h : (Tree.node tid tn [.node xid un us]).Typed N.Admits S)
    (hkind : tn.kind = .transposition) (hident : un.kind = .identifier) :
    Pushes N S (.node tid tn [.node xid un us]) (.node view
      { kind := .identifier, name := un.name, shape := tn.shape, fixed := un.fixed,
        perm := un.perm ++ shiftSwaps un.fixed.length tn.pairs } []) := by
  obtain ⟨u, heq, hfwd, hu⟩ := transposition_typed h hkind
  cases heq
  obtain rfl := hu.operands_eq_nil hident
  cases hu with
  | node hC hfits _ =>
    cases hfits with
    | constant hk _ => simp [hident] at hk
    | @identifier stored _ hstored hviews =>
      obtain ⟨lead, hlead, hin⟩ := hviews
      have hlen : stored.length = un.fixed.length + un.shape.length := by
        rw [hin.length_eq, ← List.length_append, length_forward hlead]
      have hshift : ∀ {τ : Type} (front : List τ) {l l' : List τ}, front.length = un.fixed.length →
          l.length = un.shape.length → forward tn.pairs l = some l' →
          forward (shiftSwaps un.fixed.length tn.pairs) (front ++ l) = some (front ++ l') := by
        intro τ front l l' hfront hl hl'
        rcases hN stored un.fixed (hS _ _ hstored) (hC.2 hident) with hfixed | hbound
        · rw [hfixed, List.length_nil] at hfront ⊢
          rw [List.length_eq_zero_iff.mp hfront]
          exact hl'
        · rw [← hfront] at hlen ⊢
          exact forward_shiftSwaps front hl' (by omega)
      refine ⟨.node ⟨N.perm hC.1 (perm_forward hfwd), fun _ => hC.2 hident⟩
        (.identifier rfl hstored ⟨lead, ?_, hin⟩) (by simp), rfl, ?_, ?_, ?_, ?_⟩
      · simp only [forward_append, hlead, Option.bind_some]
        exact hshift lead hin.length_eq.symm rfl hfwd
      · simp [Tree.names_node, hident, hkind]
      · simp [hident]
      · simp [weight_node, hkind, treeSize_node, hident]
      · intro α _ σ idx hidx
        obtain ⟨idx', hidx', hin', heval⟩ := eval_turned hkind hfwd σ hidx tid
        rw [heval, Tree.eval_ident hident, Tree.eval_ident rfl]
        simp only [loadAt, Node.subscript, List.map_id, backward_append,
          backward_eq_some_of_forward (hshift un.fixed rfl hin'.length_eq hidx'), Option.bind_some]

/-- Transposing a constant changes nothing. -/
theorem pushes_constant (h : (Tree.node tid tn [.node xid un us]).Typed N.Admits S)
    (hkind : tn.kind = .transposition) (hconst : un.kind = .constant) :
    Pushes N S (.node tid tn [.node xid un us]) (.node xid un us) := by
  obtain ⟨u, heq, hfwd, hu⟩ := transposition_typed h hkind
  cases heq
  have hscalar : un.shape = [] := by
    cases hu with
    | node _ hfits _ =>
      generalize us.map Tree.shape = ss at hfits
      cases hfits with
      | constant _ hs => exact hs
      | _ => simp_all [NodeKind.isElementwise]
  have hshape : tn.shape = [] := by
    have := length_forward hfwd
    rw [Tree.shape_node, hscalar] at this
    exact List.length_eq_zero_iff.mp this
  refine ⟨hu, by rw [Tree.shape_node, Tree.shape_node, hscalar, hshape], ?_, ?_, ?_, ?_⟩
  · simp [Tree.names_node, hkind]
  · intro n hn
    refine .inr ⟨n, ?_, rfl⟩
    rw [Tree.labels_node, List.flatMap_singleton]
    exact List.mem_cons_of_mem _ hn
  · simp only [weight_node, hkind, if_true, List.map_cons, List.map_nil, List.sum_cons, List.sum_nil,
      treeSize_node]
    omega
  · intro α _ σ idx hidx
    obtain ⟨idx', hidx', hin, heval⟩ := eval_turned hkind hfwd σ hidx tid
    rw [heval, Tree.eval_constant hconst, Tree.eval_constant hconst]

/-- The node of a transposition above another one. -/
def merge (tn un : Node) (operand : NodeId) : Node :=
  { tn with pairs := un.pairs ++ tn.pairs, operands := tn.operands.set 0 operand }

/-- Two transpositions become one. -/
theorem pushes_merge (operand : NodeId)
    (h : (Tree.node tid tn [.node xid un us]).Typed N.Admits S)
    (hkind : tn.kind = .transposition) (hinner : un.kind = .transposition) :
    Pushes N S (.node tid tn [.node xid un us]) (.node tid (merge tn un operand) us) := by
  have hmerged : (merge tn un operand).kind = .transposition := hkind
  obtain ⟨x, heq, hfwd, hx⟩ := transposition_typed h hkind
  cases heq
  obtain ⟨u, rfl, hfwd', hu⟩ := transposition_typed hx hinner
  have hadmits : N.Mem tn.shape := by
    cases h with
    | node hC _ _ => exact hC.1
  refine ⟨.node ⟨hadmits, by simp [hmerged]⟩ (.transposition hmerged ?_) (by simpa using hu), rfl,
    ?_, ?_, ?_, ?_⟩
  · show forward (un.pairs ++ tn.pairs) u.shape = some tn.shape
    rw [forward_append, hfwd']
    exact hfwd
  · simp [Tree.names_node, hmerged, hkind, hinner]
  · intro n hn
    rw [Tree.labels_node, List.mem_cons] at hn
    rcases hn with rfl | hn
    · exact .inl hmerged
    · refine .inr ⟨n, ?_, rfl⟩
      rw [Tree.labels_node, List.flatMap_singleton, Tree.labels_node]
      exact List.mem_cons_of_mem _ (List.mem_cons_of_mem _ hn)
  · simp only [weight_node, hmerged, hkind, hinner, if_true, List.map_cons, List.map_nil,
      List.sum_cons, List.sum_nil, treeSize_node]
    omega
  · intro α _ σ idx hidx
    obtain ⟨idx', hidx', hin, heval⟩ := eval_turned hkind hfwd σ hidx tid
    obtain ⟨idx'', hidx'', -, heval'⟩ := eval_turned hinner hfwd' σ hin xid
    rw [heval, heval', Tree.eval_transposition hmerged (backward_eq_some_of_forward ?_)]
    show forward (un.pairs ++ tn.pairs) idx'' = some idx
    rw [forward_append, hidx'', Option.bind_some, hidx']

/-- An operation on two operands is done on turned operands. The operands are turned so that each
is read at the index at which it was read before. -/
theorem pushes_binary {vn : Node} {u₀ u₁ v₀ v₁ : Tree} {pairs₀ pairs₁ : List Swap} {op : ArithOp}
    (h : (Tree.node tid tn [.node xid un [u₀, u₁]]).Typed N.Admits S)
    (hkind : tn.kind = .transposition) (hop : un.kind.arith? = some op)
    (h₀ : Turned pairs₀ u₀ v₀) (h₁ : Turned pairs₁ u₁ v₁) (hvn : vn.kind = un.kind)
    (hshape : vn.shape = tn.shape) (hfits : vn.Fits S [v₀.shape, v₁.shape])
    (hindex : ∀ idx idx', InRange un.shape idx' → forward tn.pairs idx' = some idx →
      ∃ i₀ i₁ j₀ j₁, un.operandIndices ([u₀, u₁].map Tree.rank?) idx' [] = some [i₀, i₁] ∧
        vn.operandIndices ([v₀, v₁].map Tree.rank?) idx [] = some [j₀, j₁] ∧
        forward pairs₀ i₀ = some j₀ ∧ forward pairs₁ i₁ = some j₁) :
    Pushes N S (.node tid tn [.node xid un [u₀, u₁]]) (.node xid vn [v₀, v₁]) := by
  obtain ⟨x, heq, hfwd, hx⟩ := transposition_typed h hkind
  cases heq
  have hadmits : N.Mem tn.shape := by
    cases h with
    | node hC _ _ => exact hC.1
  have hident : un.kind ≠ .identifier := by
    intro hk
    rw [hk] at hop
    cases hop
  have hinner : un.kind ≠ .transposition := by
    intro hk
    rw [hk] at hop
    cases hop
  obtain ⟨hu₀, hu₁⟩ : u₀.Typed N.Admits S ∧ u₁.Typed N.Admits S := by
    cases hx with
    | node _ _ hts => exact ⟨hts u₀ (by simp), hts u₁ (by simp)⟩
  refine ⟨.node ⟨hshape ▸ hadmits, by simp [hvn, hident]⟩ hfits ?_, hshape, ?_, ?_, ?_, ?_⟩
  · intro t ht
    simp only [List.mem_cons, List.not_mem_nil, or_false] at ht
    rcases ht with rfl | rfl
    · exact h₀.typed hu₀
    · exact h₁.typed hu₁
  · simp [Tree.names_node, hvn, hident, hkind, h₀.names, h₁.names]
  · intro n hn
    simp only [Tree.labels_node, List.flatMap_cons, List.flatMap_nil, List.append_nil, List.mem_cons,
      List.mem_append] at hn ⊢
    rcases hn with rfl | hn | hn
    · exact .inr ⟨un, by simp, hvn.symm⟩
    · exact (h₀.kinds hn).imp_right fun hn => ⟨n, by simp [hn], rfl⟩
    · exact (h₁.kinds hn).imp_right fun hn => ⟨n, by simp [hn], rfl⟩
  · have hw₀ := h₀.weight_le
    have hw₁ := h₁.weight_le
    simp only [weight_node, hkind, hvn, hinner, if_true, if_false, List.map_cons, List.map_nil,
      List.sum_cons, List.sum_nil, treeSize_node]
    omega
  · intro α _ σ idx hidx
    obtain ⟨idx', hidx', hin, heval⟩ := eval_turned hkind hfwd σ hidx tid
    obtain ⟨i₀, i₁, j₀, j₁, hi, hj, hf₀, hf₁⟩ := hindex idx idx' hin hidx'
    rw [heval, Tree.eval_arith hop hi, Tree.eval_arith (hvn ▸ hop) hj, h₀.eval σ hf₀, h₁.eval σ hf₁]

end

section
variable {tid xid : NodeId} {tn un n' : Node} {u₀ u₁ v₀ v₁ : Tree}

/-- The shapes of the operands of an operation below a transposition. -/
theorem operand_shapes (h : (Tree.node tid tn [.node xid un [u₀, u₁]]).Typed N.Admits S)
    (hkind : tn.kind = .transposition) :
    forward tn.pairs un.shape = some tn.shape ∧ un.Fits S [u₀.shape, u₁.shape] := by
  obtain ⟨x, heq, hfwd, hx⟩ := transposition_typed h hkind
  cases heq
  cases hx with
  | node _ hfits _ => exact ⟨hfwd, hfits⟩

theorem pushes_elementwise (h : (Tree.node tid tn [.node xid un [u₀, u₁]]).Typed N.Admits S)
    (hkind : tn.kind = .transposition) (hun : un.kind.isElementwise) (hn' : un.Alike n')
    (h₀ : Turned tn.pairs u₀ v₀) (h₁ : Turned tn.pairs u₁ v₁) :
    Pushes N S (.node tid tn [.node xid un [u₀, u₁]])
      (.node xid { n' with shape := tn.shape } [v₀, v₁]) := by
  obtain ⟨hfwd, hfits⟩ := operand_shapes h hkind
  obtain ⟨op, hop⟩ := NodeKind.exists_arith (.inl hun)
  obtain ⟨hs₀, hs₁⟩ : u₀.shape = un.shape ∧ u₁.shape = un.shape := by
    generalize hss : [u₀.shape, u₁.shape] = ss at hfits
    cases hfits <;> simp_all [NodeKind.isElementwise]
  have hv₀ : v₀.shape = tn.shape := Option.some.inj ((hs₀ ▸ h₀.shape).symm.trans hfwd)
  have hv₁ : v₁.shape = tn.shape := Option.some.inj ((hs₁ ▸ h₁.shape).symm.trans hfwd)
  refine pushes_binary h hkind hop h₀ h₁ hn'.kind.symm rfl ?_ fun idx idx' _ hidx => ?_
  · rw [hv₀, hv₁]
    exact .elementwise (show n'.kind.isElementwise from hn'.kind ▸ hun)
  · exact ⟨idx', idx', idx, idx, un.operandIndices_elementwise hun _ _ _,
      Node.operandIndices_elementwise (n := n') (hn'.kind ▸ hun) _ _ _, hidx, hidx⟩

theorem pushes_scalarMul (h : (Tree.node tid tn [.node xid un [u₀, u₁]]).Typed N.Admits S)
    (hkind : tn.kind = .transposition) (hun : un.kind = .scalarMul) (hn' : un.Alike n')
    (h₀ : Turned [] u₀ v₀) (h₁ : Turned tn.pairs u₁ v₁) :
    Pushes N S (.node tid tn [.node xid un [u₀, u₁]])
      (.node xid { n' with shape := tn.shape } [v₀, v₁]) := by
  obtain ⟨hfwd, hfits⟩ := operand_shapes h hkind
  have hn : n'.kind = .scalarMul := hn'.kind ▸ hun
  obtain ⟨hs₀, hs₁⟩ : u₀.shape = [] ∧ u₁.shape = un.shape := by
    generalize hss : [u₀.shape, u₁.shape] = ss at hfits
    cases hfits <;> simp_all [NodeKind.isElementwise]
  have hv₀ : v₀.shape = [] := (Option.some.inj h₀.shape).symm.trans hs₀
  have hv₁ : v₁.shape = tn.shape := Option.some.inj ((hs₁ ▸ h₁.shape).symm.trans hfwd)
  refine pushes_binary h hkind (by rw [hun]; rfl) h₀ h₁ hn'.kind.symm rfl ?_ fun idx idx' _ hidx => ?_
  · rw [hv₀, hv₁]
    exact .scalarMul hn
  · exact ⟨[], idx', [], idx, by simp [Node.operandIndices, hun], by simp [Node.operandIndices, hn],
      rfl, hidx⟩

theorem pushes_scalarDiv (h : (Tree.node tid tn [.node xid un [u₀, u₁]]).Typed N.Admits S)
    (hkind : tn.kind = .transposition) (hun : un.kind = .scalarDiv) (hn' : un.Alike n')
    (h₀ : Turned tn.pairs u₀ v₀) (h₁ : Turned [] u₁ v₁) :
    Pushes N S (.node tid tn [.node xid un [u₀, u₁]])
      (.node xid { n' with shape := tn.shape } [v₀, v₁]) := by
  obtain ⟨hfwd, hfits⟩ := operand_shapes h hkind
  have hn : n'.kind = .scalarDiv := hn'.kind ▸ hun
  obtain ⟨hs₀, hs₁⟩ : u₀.shape = un.shape ∧ u₁.shape = [] := by
    generalize hss : [u₀.shape, u₁.shape] = ss at hfits
    cases hfits <;> simp_all [NodeKind.isElementwise]
  have hv₀ : v₀.shape = tn.shape := Option.some.inj ((hs₀ ▸ h₀.shape).symm.trans hfwd)
  have hv₁ : v₁.shape = [] := (Option.some.inj h₁.shape).symm.trans hs₁
  refine pushes_binary h hkind (by rw [hun]; rfl) h₀ h₁ hn'.kind.symm rfl ?_ fun idx idx' _ hidx => ?_
  · rw [hv₀, hv₁]
    exact .scalarDiv hn
  · exact ⟨idx', [], idx, [], by simp [Node.operandIndices, hun], by simp [Node.operandIndices, hn],
      hidx, rfl⟩

theorem product_shapes (h : (Tree.node tid tn [.node xid un [u₀, u₁]]).Typed N.Admits S)
    (hkind : tn.kind = .transposition) (hun : un.kind = .product) :
    forward tn.pairs (u₀.shape ++ u₁.shape) = some tn.shape ∧ un.shape = u₀.shape ++ u₁.shape := by
  obtain ⟨hfwd, hfits⟩ := operand_shapes h hkind
  have hshape : un.shape = u₀.shape ++ u₁.shape := by
    generalize hss : [u₀.shape, u₁.shape] = ss at hfits
    cases hfits <;> simp_all [NodeKind.isElementwise]
  exact ⟨hshape ▸ hfwd, hshape⟩

theorem pushes_product {lhs rhs : List Swap}
    (h : (Tree.node tid tn [.node xid un [u₀, u₁]]).Typed N.Admits S)
    (hkind : tn.kind = .transposition) (hun : un.kind = .product) (hn' : un.Alike n')
    (hsplit : SplitsTo tn.pairs u₀.shape.length u₁.shape.length lhs rhs)
    (h₀ : Turned lhs u₀ v₀) (h₁ : Turned rhs u₁ v₁) :
    Pushes N S (.node tid tn [.node xid un [u₀, u₁]])
      (.node xid { n' with shape := tn.shape } [v₀, v₁]) := by
  obtain ⟨hfwd, hshape⟩ := product_shapes h hkind hun
  have hn : n'.kind = .product := hn'.kind ▸ hun
  obtain ⟨A', B', hA, hB, hAB⟩ := hsplit u₀.shape u₁.shape rfl rfl
  have hv₀ : v₀.shape = A' := Option.some.inj (h₀.shape.symm.trans hA)
  have hv₁ : v₁.shape = B' := Option.some.inj (h₁.shape.symm.trans hB)
  have htn : tn.shape = A' ++ B' := Option.some.inj (hfwd.symm.trans hAB)
  obtain ⟨hu₀, hu₁⟩ : u₀.Typed N.Admits S ∧ u₁.Typed N.Admits S := by
    obtain ⟨x, heq, -, hx⟩ := transposition_typed h hkind
    cases heq
    cases hx with
    | node _ _ hts => exact ⟨hts u₀ (by simp), hts u₁ (by simp)⟩
  refine pushes_binary h hkind (by rw [hun]; rfl) h₀ h₁ hn'.kind.symm rfl ?_ fun idx idx' hin hidx => ?_
  · rw [hv₀, hv₁]
    exact .product hn htn
  · have hlen : idx'.length = u₀.shape.length + u₁.shape.length := by
      rw [hin.length_eq, hshape, List.length_append]
    obtain ⟨C, D, hC, hD, hCD⟩ := hsplit (idx'.take u₀.shape.length) (idx'.drop u₀.shape.length)
      (by simp; omega) (by simp; omega)
    rw [List.take_append_drop, hidx] at hCD
    cases hCD
    have hrank₀ : v₀.rank? = some u₀.shape.length := by
      rw [(h₀.typed hu₀).rank?, hv₀, Shape.rank, length_forward hA]
    have hCl : C.length = u₀.shape.length := by
      rw [length_forward hC]
      simp
      omega
    refine ⟨_, _, C, D, ?_, ?_, hC, hD⟩
    · simp only [Node.operandIndices, hun, List.map_cons, hu₀.rank?]
      simp [Shape.rank, hlen]
    · simp only [Node.operandIndices, hn, List.map_cons, hrank₀]
      rw [← hCl]
      simp

end

/-! ## The edits of one step -/

/-- All nodes but one stay, and nothing else changes. -/
structure Patches (p q : Program) (id : NodeId) : Prop where
  code : q.assignments = p.assignments ∧ q.symbols = p.symbols ∧ q.names = p.names ∧
    q.fusion = p.fusion
  size : p.nodes.size ≤ q.nodes.size
  frame : ∀ i < p.nodes.size, i ≠ id → q.nodes[i]? = p.nodes[i]?

theorem Patches.trans {p q q' : Program} {id : NodeId} (h : Patches p q id) (h' : Patches q q' id) :
    Patches p q' id :=
  ⟨⟨h'.code.1.trans h.code.1, h'.code.2.1.trans h.code.2.1, h'.code.2.2.1.trans h.code.2.2.1,
    h'.code.2.2.2.trans h.code.2.2.2⟩, Nat.le_trans h.size h'.size,
    fun i hi hne => (h'.frame i (Nat.lt_of_lt_of_le hi h.size) hne).trans (h.frame i hi hne)⟩

theorem Patches.refl (p : Program) (id : NodeId) : Patches p p id :=
  ⟨⟨rfl, rfl, rfl, rfl⟩, Nat.le_refl _, fun _ _ _ => rfl⟩

/-- One operand of a stored node was turned. -/
def OperandTurned (pairs : List Swap) (p q : Program) (id : NodeId) (n : Node) (l : List Tree)
    (u : Tree) (r : List Tree) : Prop :=
  ∃ n' v, n.Alike n' ∧ Turned pairs u v ∧ (Tree.node id n' (l ++ v :: r)).StoredIn q.nodes ∧
    (Tree.node id n' (l ++ v :: r)).ids.Nodup ∧
    (∀ i ∈ v.ids, i ∈ u.ids ∨ p.nodes.size ≤ i) ∧ Patches p q id

section
variable {id : NodeId} {n : Node} {l r : List Tree} {u : Tree} {pairs : List Swap} {shape : Shape}

theorem transposeOperand_spec (h : (Tree.node id n (l ++ u :: r)).StoredIn p.nodes)
    (hnd : (Tree.node id n (l ++ u :: r)).ids.Nodup) (hfwd : forward pairs u.shape = some shape) :
    ∃ q, transposeOperand id pairs l.length p = .ok () q ∧ OperandTurned pairs p q id n l u r := by
  have hu := h.operand (show u ∈ l ++ u :: r by simp)
  obtain ⟨un, us, htree, hun⟩ := hu.exists_node
  have hop : n.operands[l.length]? = some u.root := by simp [h.operands_eq]
  have hid := h.node_eq
  have hlt : id < p.nodes.size := (Array.getElem?_eq_some_iff.mp hid).1
  have hadd : p.addTransposition u.root pairs = some (p.add (turn pairs shape u.root)) := by
    have hshape : un.shape.permute pairs = some shape := by
      rw [htree] at hfwd
      exact hfwd
    simp [Program.addTransposition, Program.node?, hun, hshape, turn]
  have hgrow := Program.Grows.push p (turn pairs shape u.root)
  have hset := Program.setSlot?_operand (i := 0) (hgrow.node_eq hid)
    (List.getElem?_eq_some_iff.mp hop).1 p.nodes.size
  have hrw : Tree.Rewrites (fun _ => True) u (.node p.nodes.size (turn pairs shape u.root) [u])
      (.operand id l.length) (.node id n (l ++ u :: r)) (.node id
        { n with operands := n.operands.set l.length p.nodes.size }
        (l ++ .node p.nodes.size (turn pairs shape u.root) [u] :: r)) := .here trivial
  generalize hq : (p.add (turn pairs shape u.root)).2.modifyNode id
    (fun n => { n with operands := n.operands.set l.length p.nodes.size }) = q at hset
  have hframe : ∀ i < p.nodes.size, i ≠ id → q.nodes[i]? = p.nodes[i]? := by
    intro i hi hne
    rw [← hq, Program.getElem?_modifyNode, if_neg (Ne.symm hne), hgrow.getElem?_eq hi]
  have hid' : id ∉ u.ids := hrw.parent_notMem hnd
  have hmem : ∀ i ∈ u.ids, i < p.nodes.size ∧ i ≠ id := fun i hi =>
    ⟨hu.lt_size i hi, by rintro rfl; exact hid' hi⟩
  refine ⟨q, ?_, { n with operands := n.operands.set l.length p.nodes.size },
    .node p.nodes.size (turn pairs shape u.root) [u], rfl, .turn hfwd, ?_, ?_, ?_, ?_, ?_, hframe⟩
  · refine (Edit.bind_ok (Edit.query_run (b := u.root) ?_)).trans ?_
    · simp [Program.operand?, Program.node?, hid, hop]
    · exact (Edit.bind_ok (Edit.update_run hadd)).trans (Edit.change_run hset)
  · refine hrw.storedIn h hnd (.node ?_ rfl ?_) ?_ ?_
    · rw [← hq, Program.getElem?_modifyNode, if_neg (Nat.ne_of_lt hlt)]
      exact Program.add_node p _
    · intro t ht
      rw [List.mem_singleton.mp ht]
      exact hu.frame fun i hi => hframe i (hmem i hi).1 (hmem i hi).2
    · intro i hi _ hne
      exact hframe i (h.lt_size i hi) (by rintro rfl; exact hne _ rfl)
    · rintro _ _ ⟨⟩
      rw [← hq, Program.getElem?_modifyNode, if_pos rfl, hgrow.node_eq hid, hid]
      rfl
  · obtain ⟨A, B, hA, hB⟩ := hrw.ids
    have hperm : (A ++ (Tree.node p.nodes.size (turn pairs shape u.root) [u]).ids ++ B).Perm
        (p.nodes.size :: (A ++ u.ids ++ B)) := by
      rw [Tree.ids_node, List.flatMap_singleton, List.append_assoc, List.append_assoc]
      exact List.perm_middle
    rw [hB, hperm.nodup_iff, ← hA, List.nodup_cons]
    exact ⟨fun hmem => Nat.lt_irrefl _ (h.lt_size _ hmem), hnd⟩
  · intro i hi
    rw [Tree.ids_node, List.flatMap_singleton, List.mem_cons] at hi
    rcases hi with rfl | hi
    · exact .inr (Nat.le_refl _)
    · exact .inl hi
  · rw [← hq]
    exact ⟨rfl, rfl, rfl, rfl⟩
  · rw [← hq]
    simp [Program.modifyNode, Program.add]

theorem turnOperand_spec (h : (Tree.node id n (l ++ u :: r)).StoredIn p.nodes)
    (hnd : (Tree.node id n (l ++ u :: r)).ids.Nodup) (hfwd : forward pairs u.shape = some shape) :
    ∃ q, turnOperand id pairs l.length p = .ok () q ∧ OperandTurned pairs p q id n l u r := by
  unfold turnOperand
  cases pairs with
  | nil =>
    exact ⟨p, rfl, n, u, .refl n, .same rfl, h, hnd, fun _ => .inl, .refl p id⟩
  | cons pair pairs => exact transposeOperand_spec h hnd hfwd

end

/-! ## The outcome of one step -/

section
variable {l r : List Clause} {c : Clause} {x s t t' : Tree} {slot : Slot}

/-- Aligned clauses are replaced by aligned ones. -/
def KeepsAligned (cs cs' : List Clause) : Prop :=
  (∀ c ∈ cs, c.tree.Aligned c.target) → ∀ c ∈ cs', c.tree.Aligned c.target

/-- A clause with a transposition was replaced by clauses of less weight. -/
structure Pushed (N : NodeClass) (p p' : Program) (l : List Clause) (c : Clause) (r : List Clause)
    (new : List Clause) : Prop where
  shows : p'.Shows N (l ++ (new ++ r))
  revises : Revises N p (l ++ ([c] ++ r)) p' (l ++ (new ++ r))
  single : KeepsSingle p.find (l ++ ([c] ++ r)) p'.find (l ++ (new ++ r))
  flat : KeepsFlat [c] new
  aligned : KeepsAligned [c] new
  weight : 2 * (new.map fun d => weight d.tree).sum + new.length < 2 * Pass.weight c.tree + 1

variable {pred : NodeKind → Bool}

theorem Plain.of_inner (h : Rooted pred t) {id : NodeId} {n : Node} {ts : List Tree}
    (ht : t = .node id n ts) (hn : pred n.kind = false) : Plain pred t := by
  intro m hm
  rw [Tree.labels_eq_cons ht, List.mem_cons] at hm
  rcases hm with rfl | hm
  · exact hn
  · exact h m hm

/-- A transposition in a flat clause has nothing selected below it. -/
theorem Flat.plain {Q : Node → Prop} (h : Flat pred c) (hpred : SelectsStacks pred)
    (hrw : Tree.Rewrites Q x s slot c.tree t') {id : NodeId} {n : Node} {ts : List Tree}
    (hx : x = .node id n ts) (hn : n.kind = .transposition) : Plain pred x := by
  cases slot with
  | root =>
    cases hrw with
    | root => exact Plain.of_inner h.rooted hx (by rw [hn]; exact hpred.transposition)
  | operand parent k =>
    obtain ⟨A, A', B, hA, -, -⟩ := hrw.inner
    intro m hm
    exact h.rooted m (by rw [hA]; simp [hm])

theorem Flat.rewrites {Q : Node → Prop} (h : Flat pred c)
    (hrw : Tree.Rewrites Q x s slot c.tree t') (hs : Plain pred s) (hkind : s.kind ≠ .stack) :
    Flat pred { c with tree := t' } := by
  cases slot with
  | root =>
    cases hrw with
    | root => exact ⟨hs.rooted, hkind⟩
  | operand parent k =>
    obtain ⟨A, A', B, hA, hB, halike⟩ := hrw.inner
    refine ⟨fun m hm => ?_, ?_⟩
    · simp only [hB, List.mem_append] at hm
      rcases hm with (hm | hm) | hm
      · obtain ⟨i, hi⟩ := List.mem_iff_getElem?.mp hm
        obtain ⟨m₀, hm₀, hkind⟩ := forall₂_getElem? halike.flip hi
        rw [← show m₀.kind = m.kind from Node.Alike.kind hkind]
        exact h.rooted m₀ (by rw [hA]; simp [List.mem_of_getElem? hm₀])
      · exact hs m hm
      · exact h.rooted m (by rw [hA]; simp [hm])
    · show t'.kind ≠ .stack
      rw [hrw.kind_eq]
      exact h.unstacked

theorem Pushes.plain {S : Shapes} (h : Pushes N S x s) (hpred : SelectsStacks pred)
    (hx : Plain pred x) : Plain pred s := by
  intro n hn
  rcases h.kinds n hn with hk | ⟨m, hm, hk⟩
  · rw [hk]
    exact hpred.transposition
  · rw [← hk]
    exact hx m hm

end

/-! ## The step -/

section
variable {l r : List Clause} {c : Clause} {s u : Tree} {slot : Slot} {tid xid : NodeId} {tn un : Node}
  {us : List Tree} {u₀ u₁ : Tree} {pairs₀ pairs₁ : List Swap}

/-- The transposition of `u` at a slot of the clause `c` waits to be pushed down. -/
structure Pending (N : NodeClass) (p : Program) (l : List Clause) (c : Clause) (r : List Clause)
    (slot : Slot) (tid : NodeId) (tn : Node) (u : Tree) : Prop where
  shows : p.Shows N (l ++ ([c] ++ r))
  kind : tn.kind = .transposition
  rewrites : ∃ t, Tree.Rewrites (fun n => n.kind ≠ .transposition) (.node tid tn [u])
    (.node tid tn [u]) slot c.tree t

theorem Pending.stored (h : Pending N p l c r slot tid tn u) :
    (Tree.node tid tn [u]).StoredIn p.nodes := by
  obtain ⟨t, hrw⟩ := h.rewrites
  exact hrw.subtree (h.shows.laid.stored c (by simp))

theorem Pending.typed (h : Pending N p l c r slot tid tn u) :
    (Tree.node tid tn [u]).Typed N.Admits p.find.shapes := by
  obtain ⟨t, hrw⟩ := h.rewrites
  exact hrw.typed_subtree (h.shows.fits c (by simp)).typed

theorem Pending.nodup (h : Pending N p l c r slot tid tn u) : (Tree.node tid tn [u]).ids.Nodup := by
  obtain ⟨t, hrw⟩ := h.rewrites
  obtain ⟨A, B, hA, -⟩ := hrw.ids
  have hnd : c.tree.ids.Nodup := (List.nodup_cons.mp (Unshared.nodup h.shows.unshared)).2
  rw [hA, List.append_assoc, List.nodup_append] at hnd
  exact (List.nodup_append.mp hnd.2.1).1

/-- Putting the new expression at its place completes the step. -/
theorem Pending.setSlot {q : Program} (h : Pending N p l c r slot tid tn u)
    (hpush : Pushes N p.find.shapes (.node tid tn [u]) s)
    (hcode : q.assignments = p.assignments ∧ q.symbols = p.symbols ∧ q.names = p.names ∧
      q.fusion = p.fusion)
    (hframe : ∀ i < p.nodes.size, i ∉ (Tree.node tid tn [u]).ids → q.nodes[i]? = p.nodes[i]?)
    (hstored : s.StoredIn q.nodes) (hnd : s.ids.Nodup)
    (hnew : ∀ i ∈ s.ids, i ∈ (Tree.node tid tn [u]).ids ∨ p.nodes.size ≤ i) :
    ∃ q' new, Edit.setSlot l.length slot s.root q = .ok () q' ∧ Pushed N p q' l c r new := by
  obtain ⟨t, hrw⟩ := h.rewrites
  obtain ⟨t', hrw'⟩ := hrw.other s
  have hfits := h.shows.fits c (by simp)
  obtain ⟨q', hset, hshows, hrev, hsingle⟩ := h.shows.setSlot hrw' hcode hframe hstored hnd hnew hpush.typed
    hpush.shape hpush.names (fun σ idx hidx => hpush.eval σ idx hidx)
  refine ⟨q', [{ c with tree := t' }], hset, hshows, hrev, hsingle,
    fun pred hpred hflat d hd => ?_, fun haligned d hd => ?_, ?_⟩
  · rw [List.mem_singleton.mp hd]
    have hc := hflat c (by simp)
    have hplain := hpush.plain hpred (hc.plain hpred hrw rfl h.kind)
    exact hc.rewrites hrw' hplain (hplain.kind_ne hstored hpred)
  · rw [List.mem_singleton.mp hd]
    have hc := haligned c (by simp)
    refine hc.rewrites hrw' fun hmem => ?_
    exact hc.notMem_names hfits.typed hrw (by rw [Tree.kind_node, h.kind]; rfl)
      (hpush.names ▸ hmem)
  · have hweight := weight_rewrites hrw'
    have hless := hpush.weight
    simp only [List.map_cons, List.map_nil, List.sum_cons, List.sum_nil, List.length_cons,
      List.length_nil]
    omega

/-- Both operands of a stored node were turned. -/
def BothTurned (pairs₀ pairs₁ : List Swap) (p q : Program) (xid : NodeId) (un : Node)
    (u₀ u₁ : Tree) : Prop :=
  ∃ n' v₀ v₁, un.Alike n' ∧ Turned pairs₀ u₀ v₀ ∧ Turned pairs₁ u₁ v₁ ∧
    (Tree.node xid n' [v₀, v₁]).StoredIn q.nodes ∧ (Tree.node xid n' [v₀, v₁]).ids.Nodup ∧
    (∀ i ∈ v₀.ids ++ v₁.ids, i ∈ u₀.ids ++ u₁.ids ∨ p.nodes.size ≤ i) ∧ Patches p q xid

theorem OperandTurned.then {q : Program} (pairs₁ : List Swap) (e : Edit Unit)
    (h : OperandTurned pairs₀ p q xid un [] u₀ [u₁])
    (hnext : ∀ n' v₀, (Tree.node xid n' [v₀, u₁]).StoredIn q.nodes →
      (Tree.node xid n' [v₀, u₁]).ids.Nodup →
      ∃ q', e q = .ok () q' ∧ OperandTurned pairs₁ q q' xid n' [v₀] u₁ []) :
    ∃ q', e q = .ok () q' ∧ BothTurned pairs₀ pairs₁ p q' xid un u₀ u₁ := by
  obtain ⟨n', v₀, halike, h₀, hstored, hnd, hids, hpatch⟩ := h
  obtain ⟨q', hrun, n'', v₁, halike', h₁, hstored', hnd', hids', hpatch'⟩ := hnext n' v₀ hstored hnd
  refine ⟨q', hrun, n'', v₀, v₁, halike.trans halike', h₀, h₁, hstored', hnd', fun i hi => ?_,
    hpatch.trans hpatch'⟩
  simp only [List.mem_append] at hi ⊢
  rcases hi with hi | hi
  · exact (hids i hi).imp_left .inl
  · exact (hids' i hi).imp .inr (Nat.le_trans hpatch.size)

/-- The node itself gets the shape of the transposition, and takes its place. -/
theorem Pending.finish {q : Program} (h : Pending N p l c r slot tid tn (.node xid un [u₀, u₁]))
    (hq : BothTurned pairs₀ pairs₁ p q xid un u₀ u₁)
    (hpush : ∀ n' v₀ v₁, un.Alike n' → Turned pairs₀ u₀ v₀ → Turned pairs₁ u₁ v₁ →
      Pushes N p.find.shapes (.node tid tn [.node xid un [u₀, u₁]])
        (.node xid { n' with shape := tn.shape } [v₀, v₁])) :
    ∃ q' new, (do Edit.modifyNode xid fun n => { n with shape := tn.shape }
                  Edit.setSlot l.length slot xid) q = .ok () q' ∧ Pushed N p q' l c r new := by
  obtain ⟨n', v₀, v₁, halike, h₀, h₁, hstored, hnd, hids, hpatch⟩ := hq
  have hnode := hstored.node_eq
  have hother : ∀ i, i ≠ xid →
      (q.modifyNode xid fun n => { n with shape := tn.shape }).nodes[i]? = q.nodes[i]? := by
    intro i hi
    rw [Program.getElem?_modifyNode, if_neg (Ne.symm hi)]
  have hxid : ∀ t ∈ [v₀, v₁], ∀ i ∈ t.ids, i ≠ xid := by
    rintro t ht i hi rfl
    rw [Tree.ids_node, List.nodup_cons, List.mem_flatMap] at hnd
    exact hnd.1 ⟨t, ht, hi⟩
  have hframe : ∀ i < p.nodes.size, i ∉ (Tree.node tid tn [.node xid un [u₀, u₁]]).ids →
      (q.modifyNode xid fun n => { n with shape := tn.shape }).nodes[i]? = p.nodes[i]? := by
    intro i hi hx
    have hne : i ≠ xid := by
      rintro rfl
      exact hx (by simp)
    rw [hother i hne]
    exact hpatch.frame i hi hne
  have hstored' : (Tree.node xid { n' with shape := tn.shape } [v₀, v₁]).StoredIn
      (q.modifyNode xid fun n => { n with shape := tn.shape }).nodes := by
    refine .node ?_ hstored.operands_eq fun t ht => ?_
    · rw [Program.getElem?_modifyNode, if_pos rfl, hnode]
      rfl
    · exact (hstored.operand ht).frame fun i hi => hother i (hxid t ht i hi)
  have hnew : ∀ i ∈ (Tree.node xid { n' with shape := tn.shape } [v₀, v₁]).ids,
      i ∈ (Tree.node tid tn [.node xid un [u₀, u₁]]).ids ∨ p.nodes.size ≤ i := by
    intro i hi
    simp only [Tree.ids_node, List.flatMap_cons, List.flatMap_nil, List.append_nil, List.mem_cons,
      List.mem_append] at hi hids ⊢
    rcases hi with rfl | hi
    · exact .inl (.inr (.inl rfl))
    · exact (hids i hi).imp_left fun h => .inr (.inr h)
  obtain ⟨q', new, hset, hpushed⟩ := Pending.setSlot
    (q := q.modifyNode xid fun n => { n with shape := tn.shape }) h (hpush n' v₀ v₁ halike h₀ h₁)
    hpatch.code hframe hstored' hnd hnew
  exact ⟨q', new, (Edit.bind_ok (Edit.modifyNode_run _ hnode)).trans hset, hpushed⟩

theorem Pending.pair (h : Pending N p l c r slot tid tn (.node xid un us)) {op : ArithOp}
    (hop : un.kind.arith? = some op) : ∃ u₀ u₁, us = [u₀, u₁] := by
  obtain ⟨u, heq, -, hu⟩ := transposition_typed h.typed h.kind
  cases heq
  cases hu with
  | node _ hfits _ =>
    generalize hss : us.map Tree.shape = ss at hfits
    cases hfits with
    | elementwise | scalarMul | scalarDiv | product =>
      obtain ⟨u₀, u₁, heq, -, -⟩ := Tree.map_eq_pair hss
      exact ⟨u₀, u₁, heq⟩
    | identifier hk | constant hk | transposition hk | contraction hk | stack hk =>
      simp [hk, NodeKind.arith?] at hop

theorem Pending.inner (h : Pending N p l c r slot tid tn u) :
    u.StoredIn p.nodes ∧ u.ids.Nodup ∧ tid ∉ u.ids := by
  have hnd := h.nodup
  rw [Tree.ids_node, List.flatMap_singleton, List.nodup_cons] at hnd
  exact ⟨h.stored.operand (.head _), hnd.2, hnd.1⟩

theorem Pending.identifier (hN : N.Numbered)
    (h : Pending N p l c r slot tid tn (.node xid un us)) (hk : un.kind = .identifier) :
    ∃ p' new, pushBelow l.length slot tid tn xid un p = .ok () p' ∧ Pushed N p p' l c r new := by
  obtain ⟨q', new, hset, hpushed⟩ := Pending.setSlot
    (q := (p.addView un.name tn.shape un.fixed
      (un.perm ++ shiftSwaps un.fixed.length tn.pairs)).2)
    h (pushes_ident hN h.shows.mem_shapes p.nodes.size h.typed h.kind hk) ⟨rfl, rfl, rfl, rfl⟩
    (fun i hi _ => (Program.Grows.push p _).getElem?_eq hi)
    (.node (Program.add_node p _) rfl (by simp)) (by simp) (by simp)
  refine ⟨q', new, ?_, hpushed⟩
  simp only [pushBelow, hk]
  exact (Edit.bind_ok (Edit.addView_run p _ _ _ _)).trans hset

theorem Pending.constant (h : Pending N p l c r slot tid tn (.node xid un us))
    (hk : un.kind = .constant) :
    ∃ p' new, pushBelow l.length slot tid tn xid un p = .ok () p' ∧ Pushed N p p' l c r new := by
  obtain ⟨hstored, hnd, -⟩ := h.inner
  obtain ⟨q', new, hset, hpushed⟩ := h.setSlot (pushes_constant h.typed h.kind hk) ⟨rfl, rfl, rfl, rfl⟩
    (fun _ _ _ => rfl) hstored hnd fun i hi => .inl (by
      rw [Tree.ids_node, List.flatMap_singleton]
      exact List.mem_cons_of_mem _ hi)
  refine ⟨q', new, ?_, hpushed⟩
  simp only [pushBelow, hk]
  exact hset

theorem Pending.elementwise (h : Pending N p l c r slot tid tn (.node xid un us))
    (hk : un.kind.isElementwise) :
    ∃ p' new, pushBelow l.length slot tid tn xid un p = .ok () p' ∧ Pushed N p p' l c r new := by
  obtain ⟨op, hop⟩ := NodeKind.exists_arith (.inl hk)
  obtain ⟨u₀, u₁, rfl⟩ := h.pair hop
  obtain ⟨hstored, hnd, -⟩ := h.inner
  obtain ⟨hfwd, hfits⟩ := operand_shapes h.typed h.kind
  obtain ⟨hs₀, hs₁⟩ : u₀.shape = un.shape ∧ u₁.shape = un.shape := by
    generalize hss : [u₀.shape, u₁.shape] = ss at hfits
    cases hfits <;> simp_all [NodeKind.isElementwise]
  obtain ⟨q, hrun, hq⟩ := transposeOperand_spec (l := []) hstored hnd (hs₀.symm ▸ hfwd)
  obtain ⟨q₁, hrun₁, hq₁⟩ := hq.then tn.pairs (transposeOperand xid tn.pairs 1)
    fun n' v₀ hst hnd => transposeOperand_spec (l := [v₀]) hst hnd (hs₁.symm ▸ hfwd)
  obtain ⟨q', new, hfinish, hpushed⟩ := h.finish hq₁ fun n' v₀ v₁ hn' h₀ h₁ =>
    pushes_elementwise h.typed h.kind hk hn' h₀ h₁
  refine ⟨q', new, ?_, hpushed⟩
  have hlen : un.operands.length = 2 := by simp [hstored.operands_eq]
  have hboth : (List.range un.operands.length).forM (transposeOperand xid tn.pairs) p =
      .ok () q₁ := by
    rw [hlen]
    exact (Edit.bind_ok hrun).trans ((Edit.bind_ok hrun₁).trans rfl)
  have hbody : pushBelow l.length slot tid tn xid un p = (do
      (List.range un.operands.length).forM (transposeOperand xid tn.pairs)
      Edit.modifyNode xid fun n => { n with shape := tn.shape }
      Edit.setSlot l.length slot xid) p := by
    unfold pushBelow
    cases hkind : un.kind <;> simp_all [NodeKind.isElementwise]
  exact hbody.trans ((Edit.bind_ok hboth).trans hfinish)

theorem Pending.scalarMul (h : Pending N p l c r slot tid tn (.node xid un us))
    (hk : un.kind = .scalarMul) :
    ∃ p' new, pushBelow l.length slot tid tn xid un p = .ok () p' ∧ Pushed N p p' l c r new := by
  obtain ⟨u₀, u₁, rfl⟩ := h.pair (show un.kind.arith? = some .mul by rw [hk]; rfl)
  obtain ⟨hstored, hnd, -⟩ := h.inner
  obtain ⟨hfwd, hfits⟩ := operand_shapes h.typed h.kind
  have hs₁ : u₁.shape = un.shape := by
    generalize hss : [u₀.shape, u₁.shape] = ss at hfits
    cases hfits <;> simp_all [NodeKind.isElementwise]
  have hsame : OperandTurned [] p p xid un [] u₀ [u₁] :=
    ⟨un, u₀, .refl un, .same rfl, hstored, hnd, fun _ => .inl, .refl p xid⟩
  obtain ⟨q, hrun, hq⟩ := hsame.then tn.pairs (transposeOperand xid tn.pairs 1)
    fun n' v₀ hst hnd => transposeOperand_spec (l := [v₀]) hst hnd (hs₁.symm ▸ hfwd)
  obtain ⟨q', new, hfinish, hpushed⟩ := h.finish hq fun n' v₀ v₁ hn' h₀ h₁ =>
    pushes_scalarMul h.typed h.kind hk hn' h₀ h₁
  refine ⟨q', new, ?_, hpushed⟩
  simp only [pushBelow, hk]
  exact (Edit.bind_ok hrun).trans hfinish

theorem Pending.scalarDiv (h : Pending N p l c r slot tid tn (.node xid un us))
    (hk : un.kind = .scalarDiv) :
    ∃ p' new, pushBelow l.length slot tid tn xid un p = .ok () p' ∧ Pushed N p p' l c r new := by
  obtain ⟨u₀, u₁, rfl⟩ := h.pair (show un.kind.arith? = some .div by rw [hk]; rfl)
  obtain ⟨hstored, hnd, -⟩ := h.inner
  obtain ⟨hfwd, hfits⟩ := operand_shapes h.typed h.kind
  have hs₀ : u₀.shape = un.shape := by
    generalize hss : [u₀.shape, u₁.shape] = ss at hfits
    cases hfits <;> simp_all [NodeKind.isElementwise]
  obtain ⟨q, hrun, hq⟩ := transposeOperand_spec (l := []) hstored hnd (hs₀.symm ▸ hfwd)
  obtain ⟨q₁, hrun₁, hq₁⟩ := hq.then [] (pure ()) fun n' v₀ hst hnd =>
    ⟨q, rfl, n', u₁, .refl n', .same rfl, hst, hnd, fun _ => .inl, .refl q xid⟩
  cases hrun₁
  obtain ⟨q', new, hfinish, hpushed⟩ := h.finish hq₁ fun n' v₀ v₁ hn' h₀ h₁ =>
    pushes_scalarDiv h.typed h.kind hk hn' h₀ h₁
  refine ⟨q', new, ?_, hpushed⟩
  simp only [pushBelow, hk]
  exact (Edit.bind_ok hrun).trans hfinish

theorem Pending.transposition (h : Pending N p l c r slot tid tn (.node xid un us))
    (hk : un.kind = .transposition) :
    ∃ p' new, pushBelow l.length slot tid tn xid un p = .ok () p' ∧ Pushed N p p' l c r new := by
  obtain ⟨x, heq, -, hx⟩ := transposition_typed h.typed h.kind
  cases heq
  obtain ⟨v, rfl, -, -⟩ := transposition_typed hx hk
  obtain ⟨hstored, hnd, hnot⟩ := h.inner
  rw [Tree.ids_node, List.flatMap_singleton] at hnd hnot
  have htn := h.stored.node_eq
  have hop : p.operand? xid 0 = some v.root := by
    simp [Program.operand?, Program.node?, hstored.node_eq, hstored.operands_eq]
  generalize hq : (p.modifyNode tid fun n => { n with pairs := un.pairs ++ tn.pairs }).modifyNode tid
    (fun n => { n with operands := n.operands.set 0 v.root }) = q
  have hother : ∀ i, i ≠ tid → q.nodes[i]? = p.nodes[i]? := fun i hi => by
    rw [← hq, Program.getElem?_modifyNode, if_neg (Ne.symm hi), Program.getElem?_modifyNode,
      if_neg (Ne.symm hi)]
  have hnode : q.nodes[tid]? = some (merge tn un v.root) := by
    rw [← hq, Program.getElem?_modifyNode, if_pos rfl, Program.getElem?_modifyNode, if_pos rfl, htn]
    rfl
  have hmod : q.assignments = p.assignments := by
    rw [← hq]
    rfl
  have hv : v.StoredIn q.nodes := (hstored.operand (.head _)).frame fun i hi => hother i (by
    rintro rfl
    exact hnot (List.mem_cons_of_mem _ hi))
  have hids : ∀ i ∈ (Tree.node tid (merge tn un v.root) [v]).ids,
      i ∈ (Tree.node tid tn [.node xid un [v]]).ids ∨ p.nodes.size ≤ i := by
    intro i hi
    left
    simp only [Tree.ids_node, List.flatMap_singleton, List.mem_cons] at hi ⊢
    tauto
  have hone : (Tree.node tid (merge tn un v.root) [v]).ids.Nodup := by
    rw [Tree.ids_node, List.flatMap_singleton, List.nodup_cons]
    exact ⟨fun hmem => hnot (List.mem_cons_of_mem _ hmem), (List.nodup_cons.mp hnd).2⟩
  obtain ⟨q', new, hset, hpushed⟩ := Pending.setSlot (q := q) h
    (pushes_merge v.root h.typed h.kind hk) (by rw [← hq]; exact ⟨rfl, rfl, rfl, rfl⟩)
    (fun i _ hi => hother i (by rintro rfl; exact hi (by simp)))
    (.node hnode (by simp [merge, h.stored.operands_eq]) (by simpa using hv)) hone hids
  -- the slot holds the node already
  obtain ⟨t, hrw⟩ := h.rewrites
  have hslot : q.slotNode? c.assignment slot = some tid := by
    refine Eq.trans ?_ (h.shows.laid.slotNode?_eq (by simp) hrw)
    cases slot with
    | root => rfl
    | operand parent k =>
      have hne : parent ≠ tid := by
        rintro rfl
        have hnd : c.tree.ids.Nodup := (List.nodup_cons.mp (Unshared.nodup h.shows.unshared)).2
        exact hrw.parent_notMem hnd (by simp)
      simp only [Program.slotNode?, Program.operand?, Program.node?, hother parent hne]
  have hsame := Edit.setSlot_run (Program.setSlot?_same (p := q) (i := l.length)
    (by simp [hmod, h.shows.laid.assignments]) hslot)
  obtain rfl : q' = q := by
    have := hset.symm.trans hsame
    injection this
  refine ⟨q', new, ?_, hpushed⟩
  simp only [pushBelow, hk]
  refine (Edit.bind_ok (Edit.query_run hop)).trans ?_
  refine (Edit.bind_ok (Edit.modifyNode_run _ htn)).trans ?_
  refine (Edit.change_run (Program.setSlot?_operand (n := { tn with
    pairs := un.pairs ++ tn.pairs }) ?_ (by simp [h.stored.operands_eq]) v.root)).trans (by rw [hq])
  rw [Program.getElem?_modifyNode, if_pos rfl, htn]
  rfl

/-- Moving the operand out leaves less below the transposition. -/
theorem Pending.hoist (h : Pending N p l c r slot tid tn u) (hsize : 1 < treeSize u) :
    ∃ p' new read, Pass.hoist l.length (.operand tid 0) p = .ok read p' ∧
      Pushed N p p' l c r new := by
  obtain ⟨t, hrw⟩ := h.rewrites
  obtain ⟨t₁, hrw₁⟩ := hrw.descend (l := []) (r := []) rfl u
  obtain ⟨p', read, dst, name, t', hrun, hname, hrw', hshows, hrev, hsingle, -⟩ :=
    hoist_spec h.shows hrw₁
  have hc : c ∈ l ++ ([c] ++ r) := by simp
  have hfits := h.shows.fits c hc
  have hstored := h.shows.laid.stored c hc
  have hnone : p.find name = none := by
    cases hs : p.find name with
    | none => rfl
    | some s => exact absurd (h.shows.tidy.mem_taken hs) hname
  refine ⟨p', _, read, hrun, hshows, hrev, hsingle, fun pred hpred hflat d hd => ?_,
    fun haligned d hd => ?_, ?_⟩
  · have hflat := hflat c (by simp)
    have hplain : Plain pred u := fun n hn => hflat.plain hpred hrw rfl h.kind n (by
      rw [Tree.labels_node, List.flatMap_singleton]
      exact List.mem_cons_of_mem _ hn)
    simp only [List.mem_cons, List.not_mem_nil, or_false] at hd
    rcases hd with rfl | rfl
    · exact ⟨hplain.rooted, hplain.kind_ne (hrw₁.subtree hstored) hpred⟩
    · exact hflat.rewrites hrw' (wholeTree_plain hpred _ _ _) (by simp [wholeTree, whole])
  · simp only [List.mem_cons, List.not_mem_nil, or_false] at hd
    rcases hd with rfl | rfl
    · refine .apart fun hmem => ?_
      obtain ⟨A, B, hA, -⟩ := hrw₁.names
      obtain ⟨s, hs⟩ := hfits.declared_name (show name ∈ c.tree.names by
        rw [hA]
        exact List.mem_append_left _ (List.mem_append_right _ hmem))
      rw [hnone] at hs
      cases hs
    · refine (haligned c (by simp)).rewrites hrw' fun hmem => ?_
      obtain ⟨s, hs, -⟩ := hfits.declared
      rw [names_wholeTree, List.mem_singleton] at hmem
      rw [show c.name = name from hmem, hnone] at hs
      cases hs
  · have hweight := weight_hoisted hrw' hstored h.stored.node_eq h.kind
      (by rw [wholeTree, treeSize_node]; simp; omega)
    have hwhole : weight (wholeTree read name u.shape) = 0 := by
      simp [wholeTree, whole, weight_node]
    have hsmall : treeSize (wholeTree read name u.shape) = 1 := by simp [wholeTree, treeSize_node]
    simp only [List.map_cons, List.map_nil, List.sum_cons, List.sum_nil, List.length_cons,
      List.length_nil]
    omega

/-- An operand that cannot be turned is moved out. -/
theorem Pending.contractionOrStack (h : Pending N p l c r slot tid tn (.node xid un us))
    (hk : un.kind = .contraction ∨ un.kind = .stack) :
    ∃ p' new, pushBelow l.length slot tid tn xid un p = .ok () p' ∧ Pushed N p p' l c r new := by
  obtain ⟨u, us', rfl⟩ : ∃ u us', us = u :: us' := by
    obtain ⟨x, heq, -, hx⟩ := transposition_typed h.typed h.kind
    cases heq
    cases hx with
    | node _ hfits _ =>
      generalize hss : us.map Tree.shape = ss at hfits
      cases us with
      | nil =>
        cases hss
        cases hfits with
        | identifier hk' | constant hk' => simp_all
      | cons u us' => exact ⟨u, us', rfl⟩
  obtain ⟨p', new, read, hrun, hpushed⟩ := h.hoist (by
    have := treeSize_pos u
    simp only [treeSize_node, List.map_cons, List.sum_cons]
    omega)
  refine ⟨p', new, ?_, hpushed⟩
  rcases hk with hk | hk <;> simp only [pushBelow, hk] <;> exact (Edit.bind_ok hrun).trans rfl

theorem Pending.product (h : Pending N p l c r slot tid tn (.node xid un us))
    (hk : un.kind = .product) :
    ∃ p' new, pushBelow l.length slot tid tn xid un p = .ok () p' ∧ Pushed N p p' l c r new := by
  obtain ⟨u₀, u₁, rfl⟩ := h.pair (show un.kind.arith? = some .mul by rw [hk]; rfl)
  obtain ⟨hstored, hnd, -⟩ := h.inner
  obtain ⟨hfwd, -⟩ := product_shapes h.typed h.kind hk
  obtain ⟨res, hsplit, hres⟩ := splitSwaps_spec hfwd List.length_append
  have hrank : tn.shape.rank = u₀.shape.length + u₁.shape.length := by
    rw [Shape.rank, length_forward hfwd, List.length_append]
  obtain ⟨n₀, us₀, htree, hn₀⟩ := (hstored.operand (.head _)).exists_node
  have hop : p.operand? xid 0 = some u₀.root := by
    simp [Program.operand?, Program.node?, hstored.node_eq, hstored.operands_eq]
  have hshape : n₀.shape = u₀.shape := by rw [htree]; rfl
  rw [← hrank, ← hshape] at hsplit
  cases res with
  | none =>
    obtain ⟨p', new, read, hrun, hpushed⟩ := h.hoist (by
      have := treeSize_pos u₀
      simp only [treeSize_node, List.map_cons, List.sum_cons]
      omega)
    refine ⟨p', new, ?_, hpushed⟩
    simp only [pushBelow, hk]
    refine (Edit.bind_ok (Edit.query_run hop)).trans ?_
    refine (Edit.bind_ok (Edit.node_run hn₀)).trans ?_
    refine (Edit.bind_ok (Edit.query_run hsplit)).trans ?_
    exact (Edit.bind_ok hrun).trans rfl
  | some pair =>
    obtain ⟨lhs, rhs⟩ := pair
    have hto : SplitsTo tn.pairs u₀.shape.length u₁.shape.length lhs rhs := hres lhs rhs rfl
    obtain ⟨A', B', hA, hB, -⟩ := hto u₀.shape u₁.shape rfl rfl
    obtain ⟨q, hrun, hq⟩ := turnOperand_spec (l := []) hstored hnd hA
    obtain ⟨q₁, hrun₁, hq₁⟩ := hq.then rhs (turnOperand xid rhs 1)
      fun n' v₀ hst hnd => turnOperand_spec (l := [v₀]) hst hnd hB
    obtain ⟨q', new, hfinish, hpushed⟩ := h.finish hq₁ fun n' v₀ v₁ hn' h₀ h₁ =>
      pushes_product h.typed h.kind hk hn' hto h₀ h₁
    refine ⟨q', new, ?_, hpushed⟩
    simp only [pushBelow, hk]
    refine (Edit.bind_ok (Edit.query_run hop)).trans ?_
    refine (Edit.bind_ok (Edit.node_run hn₀)).trans ?_
    refine (Edit.bind_ok (Edit.query_run hsplit)).trans ?_
    exact (Edit.bind_ok hrun).trans ((Edit.bind_ok hrun₁).trans hfinish)

/-- The step succeeds and replaces the clause by clauses of less weight. -/
theorem push_spec (hN : N.Numbered) (h : Pending N p l c r slot tid tn u) :
    ∃ p' new, push l.length slot p = .ok () p' ∧ Pushed N p p' l c r new := by
  obtain ⟨hstored, -, -⟩ := h.inner
  obtain ⟨un, us, htree, -⟩ := hstored.exists_node
  generalize u.root = xid at htree
  subst htree
  have hbelow : ∃ p' new, pushBelow l.length slot tid tn xid un p = .ok () p' ∧ Pushed N p p' l c r new := by
    have hknown : un.kind ≠ .invalid ∧ un.kind ≠ .unknown := by
      obtain ⟨x, heq, -, hx⟩ := transposition_typed h.typed h.kind
      cases heq
      cases hx with
      | node _ hfits _ =>
        generalize us.map Tree.shape = ss at hfits
        cases hfits with
        | elementwise hk =>
          constructor <;> intro hinv <;> rw [hinv] at hk <;> cases hk
        | identifier hk | constant hk | scalarMul hk | scalarDiv hk | product hk
        | transposition hk | contraction hk | stack hk => simp [hk]
    cases hk : un.kind with
    | identifier => exact h.identifier hN hk
    | constant => exact h.constant hk
    | add | sub | mul | div => exact h.elementwise (by rw [hk]; rfl)
    | scalarMul => exact h.scalarMul hk
    | scalarDiv => exact h.scalarDiv hk
    | transposition => exact h.transposition hk
    | product => exact h.product hk
    | contraction => exact h.contractionOrStack (.inl hk)
    | stack => exact h.contractionOrStack (.inr hk)
    | invalid => exact absurd hk hknown.1
    | unknown => exact absurd hk hknown.2
  obtain ⟨p', new, hrun, hpushed⟩ := hbelow
  refine ⟨p', new, ?_, hpushed⟩
  obtain ⟨t, hrw⟩ := h.rewrites
  have hslot := h.shows.laid.slotNode?_eq (show c ∈ l ++ ([c] ++ r) by simp) hrw
  have hop : p.operand? tid 0 = some xid := by
    simp [Program.operand?, Program.node?, h.stored.node_eq, h.stored.operands_eq]
  refine (Edit.bind_ok (Edit.assignment_run (a := c.assignment) ?_)).trans ?_
  · simp [h.shows.laid.assignments]
  refine (Edit.bind_ok (Edit.query_run hslot)).trans ?_
  refine (Edit.bind_ok (Edit.node_run h.stored.node_eq)).trans ?_
  refine (Edit.bind_ok (Edit.query_run hop)).trans ?_
  exact (Edit.bind_ok (Edit.node_run hstored.node_eq)).trans hrun

end

end LoopNest.Pass
