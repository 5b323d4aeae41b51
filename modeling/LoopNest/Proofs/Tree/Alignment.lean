import LoopNest.Pass.AliasCopy
import LoopNest.Proofs.Clause

/-!
# Alignment

A tree is aligned with a destination if it reads the tensor of the destination only at the element
that is being written. The pass that copies overwritten tensors looks for the places where this
fails (`incompatibleAt`).
-/

namespace LoopNest

variable {dst : Node}

/-- The fixed indices and the swaps of an identifier determine the shape of what it views. -/
theorem Node.Views.shape_eq {n m : Node} {stored : Shape} (hn : n.Views stored)
    (hm : m.Views stored) (hfixed : n.fixed = m.fixed) (hperm : n.perm = m.perm) :
    n.shape = m.shape := by
  obtain ⟨lead, hlead, hin⟩ := hn
  obtain ⟨lead', hlead', hin'⟩ := hm
  rw [hperm, hlead'] at hlead
  rw [hfixed] at hin
  have hlen : lead'.length = lead.length := hin'.length_eq.symm.trans hin.length_eq
  exact (List.append_inj (Option.some.inj hlead) hlen).2.symm

namespace Tree

variable {nodes : Array Node}

/-- The tensor of the destination is read only through nodes that index their operands like their
result, with the fixed indices and the swaps of the destination. -/
inductive Aligned (dst : Node) : Tree → Prop
  | apart {t : Tree} : dst.name ∉ t.names → Aligned dst t
  | ident {id : NodeId} {n : Node} {ts : List Tree} : n.kind = .identifier → n.fixed = dst.fixed →
    n.perm = dst.perm → Aligned dst (.node id n ts)
  | pointwise {id : NodeId} {n : Node} {ts : List Tree} : n.kind ≠ .identifier →
    n.kind.permutes = false → (∀ t ∈ ts, Aligned dst t) → Aligned dst (.node id n ts)

/-- An operand of a node that does not permute is indexed like the node, or it is a scalar. -/
theorem Typed.pointwise_operand {C : Node → Prop} {S : Shapes} {id : NodeId} {n : Node}
    {ts : List Tree} (h : (Tree.node id n ts).Typed C S) (hperm : n.kind.permutes = false)
    (hleaf : n.kind.isLeaf = false) {τ : Type} {idx con : List τ} {ops : List (List τ)}
    (hops : n.operandIndices (ts.map Tree.rank?) idx con = some ops) {j : Nat} {t : Tree}
    {idx' : List τ} (ht : ts[j]? = some t) (hi : ops[j]? = some idx') :
    t.shape = n.shape ∧ idx' = idx ∨ t.shape = [] ∧ idx' = [] := by
  have hshape : (ts.map Tree.shape)[j]? = some t.shape := by simp [ht]
  have hpair : ∀ {β : Type} {a b x : β}, [a, b][j]? = some x → j = 0 ∧ x = a ∨ j = 1 ∧ x = b := by
    intro β a b x hx
    match j, hx with
    | 0, hx => exact .inl ⟨rfl, (Option.some.inj hx).symm⟩
    | 1, hx => exact .inr ⟨rfl, (Option.some.inj hx).symm⟩
  cases h with
  | node _ hfits _ =>
    generalize ts.map Tree.shape = shapes at hfits hshape
    unfold Node.operandIndices at hops
    cases hfits with
    | elementwise hk =>
      obtain rfl : [idx, idx] = ops := Option.some.inj
        ((n.operandIndices_elementwise hk _ _ _).symm.trans hops)
      left
      rcases hpair hshape with ⟨-, h₁⟩ | ⟨-, h₁⟩ <;> rcases hpair hi with ⟨-, h₂⟩ | ⟨-, h₂⟩ <;>
        exact ⟨h₁, h₂⟩
    | scalarMul hk =>
      simp only [hk, Option.some.injEq] at hops
      subst hops
      rcases hpair hshape with ⟨rfl, h₁⟩ | ⟨rfl, h₁⟩
      · exact .inr ⟨h₁, (Option.some.inj hi).symm⟩
      · exact .inl ⟨h₁, (Option.some.inj hi).symm⟩
    | scalarDiv hk =>
      simp only [hk, Option.some.injEq] at hops
      subst hops
      rcases hpair hshape with ⟨rfl, h₁⟩ | ⟨rfl, h₁⟩
      · exact .inl ⟨h₁, (Option.some.inj hi).symm⟩
      · exact .inr ⟨h₁, (Option.some.inj hi).symm⟩
    | identifier hk => simp [hk, NodeKind.isLeaf] at hleaf
    | constant hk => simp [hk, NodeKind.isLeaf] at hleaf
    | product hk => simp [hk, NodeKind.permutes] at hperm
    | contraction hk => simp [hk, NodeKind.permutes] at hperm
    | stack hk => simp [hk, NodeKind.permutes] at hperm
    | transposition hk => simp [hk, NodeKind.permutes] at hperm

/-- An aligned tree reads the cell of the destination at its own index only. -/
theorem Aligned.touches {C : Node → Prop} {S : Shapes} {stored : Shape} {t : Tree} {idx sub : List Int}
    (h : t.Aligned dst) (ht : t.Typed C S) (hS : S dst.name = some stored) (hdst : dst.Views stored)
    (hshape : t.shape = dst.shape ∨ t.shape = []) (hidx : InRange t.shape idx)
    (hsub : t.Touches idx dst.name sub) : dst.own? sub = some idx := by
  induction h generalizing idx with
  | apart hname => exact absurd hsub.mem_names hname
  | @ident id n ts hkind hfixed hperm =>
    generalize hname : dst.name = name at hsub
    cases hsub with
    | ident _ hsub =>
      cases ht with
      | node _ hfits _ =>
        generalize ts.map Tree.shape = shapes at hfits
        cases hfits with
        | identifier _ hS' hviews =>
          rw [← hname, hS] at hS'
          cases hS'
          refine Node.own?_eq_some_iff.mpr ⟨?_, hviews.shape_eq hdst hfixed hperm ▸ hidx⟩
          rwa [Node.subscript, ← hfixed, ← hperm]
        | _ => simp_all [NodeKind.isElementwise]
    | operand hleaf => simp [hkind, NodeKind.isLeaf] at hleaf
  | @pointwise id n ts hkind hperm _ ih =>
    generalize hname : dst.name = name at hsub
    cases hsub with
    | ident hident _ => exact absurd hident hkind
    | @operand _ _ _ _ con ops j t idx' _ _ hleaf hcon hops hj hi hsub =>
      subst hname
      have htyped : t.Typed C S := by
        cases ht with
        | node _ _ hts => exact hts t (List.mem_of_getElem? hj)
      have hidx' : InRange t.shape idx' := by
        obtain ⟨ops', hops', hall⟩ := ht.operandIndices hleaf hidx hcon
        rw [hops] at hops'
        cases hops'
        obtain ⟨y, hy, hin⟩ := forall₂_getElem? hall hj
        rw [hi] at hy
        cases hy
        exact hin
      rcases ht.pointwise_operand hperm hleaf hops hj hi with ⟨hs, rfl⟩ | ⟨hs, rfl⟩
      · exact ih t (List.mem_of_getElem? hj) htyped (hs ▸ hshape) hidx' hsub
      · -- a scalar that reads the destination makes it a scalar
        have hown := ih t (List.mem_of_getElem? hj) htyped (.inr hs) hidx' hsub
        have hempty : dst.shape = [] := by
          have := (Node.own?_eq_some_iff.mp hown).2
          cases hd : dst.shape with
          | nil => rfl
          | cons d ds =>
            rw [hd] at this
            cases this
        have hnil : (Tree.node id n ts).shape = [] := hshape.elim (·.trans hempty) (fun h => h)
        rw [hnil] at hidx
        cases hidx
        exact hown

/-- Below a node that permutes the destination is not read. -/
theorem Aligned.notMem_names {C : Node → Prop} {S : Shapes} {Q : Node → Prop} {x s t t' : Tree}
    {slot : Slot} (h : t.Aligned dst) (ht : t.Typed C S) (hrw : Rewrites Q x s slot t t')
    (hx : x.kind.permutes = true) : dst.name ∉ x.names := by
  induction hrw with
  | root =>
    cases h with
    | apart h => exact h
    | ident hk => simp [hk, NodeKind.permutes] at hx
    | pointwise _ hk => simp [hk] at hx
  | @here id n l r _ =>
    have hmem : ∀ name ∈ x.names, name ∈ (Tree.node id n (l ++ x :: r)).names := fun name hname => by
      rw [names_node]
      exact List.mem_append_right _ (List.mem_flatMap.mpr ⟨x, by simp, hname⟩)
    cases h with
    | apart h => exact fun hname => h (hmem _ hname)
    | ident hk => simpa using ht.operands_eq_nil hk
    | pointwise _ _ hts =>
      cases hts x (by simp) with
      | apart h => exact h
      | ident hk => simp [hk, NodeKind.permutes] at hx
      | pointwise _ hk => simp [hk] at hx
  | @deeper id n l r u u' parent k _ hrw ih =>
    cases h with
    | apart h =>
      obtain ⟨A, B, hA, -⟩ := hrw.names
      intro hname
      refine h ?_
      rw [names_node]
      refine List.mem_append_right _ (List.mem_flatMap.mpr ⟨u, by simp, ?_⟩)
      rw [hA]
      simp [hname]
    | ident hk => simpa using ht.operands_eq_nil hk
    | pointwise _ _ hts =>
      cases ht with
      | node _ _ htyped => exact ih (hts u (by simp)) (htyped u (by simp))

/-- A tree stays aligned when a subtree is replaced by one that does not read the destination. -/
theorem Aligned.rewrites {Q : Node → Prop} {x s t t' : Tree} {slot : Slot} (h : t.Aligned dst)
    (hrw : Rewrites Q x s slot t t') (hs : dst.name ∉ s.names) : t'.Aligned dst := by
  induction hrw with
  | root => exact .apart hs
  | @here id n l r _ =>
    cases h with
    | apart h =>
      refine .apart fun hmem => h ?_
      rw [names_node] at hmem ⊢
      simp only [List.flatMap_append, List.flatMap_cons, List.mem_append] at hmem ⊢
      tauto
    | ident hk hfixed hperm => exact .ident hk hfixed hperm
    | pointwise hk hp hts =>
      refine .pointwise hk hp fun t ht => ?_
      simp only [List.mem_append, List.mem_cons] at ht
      rcases ht with ht | rfl | ht
      · exact hts t (by simp [ht])
      · exact .apart hs
      · exact hts t (by simp [ht])
  | @deeper id n l r u u' parent k _ hrw ih =>
    cases h with
    | apart h =>
      obtain ⟨A, B, hA, hB⟩ := hrw.names
      refine .apart fun hmem => h ?_
      rw [names_node] at hmem ⊢
      simp only [List.flatMap_append, List.flatMap_cons, List.mem_append, hA, hB] at hmem ⊢
      tauto
    | ident hk hfixed hperm => exact .ident hk hfixed hperm
    | pointwise hk hp hts =>
      refine .pointwise hk hp fun t ht => ?_
      simp only [List.mem_append, List.mem_cons] at ht
      rcases ht with ht | rfl | ht
      · exact hts t (by simp [ht])
      · exact ih (hts u (by simp))
      · exact hts t (by simp [ht])

/-! ## The search for places that are not aligned -/

open Pass

/-- Reads the tensor of the destination. -/
def ReadsOf (dst : Node) (t : Tree) : Prop :=
  ∃ id n, t = .node id n [] ∧ n.kind = .identifier ∧ n.name = dst.name

/-- The first place that is not aligned goes away when another tensor is read there. -/
def Resolves (dst : Node) (permuted : Bool) (slot first : Slot) (rest : List Slot) (t : Tree) : Prop :=
  ∃ parent k x, first = .operand parent k ∧ ReadsOf dst x ∧
    ∀ id m, m.kind = .identifier → m.name ≠ dst.name →
      ∃ t', Rewrites (fun _ => True) x (.node id m []) first t t' ∧
        incompatibleAt dst permuted slot t' = some rest

theorem incompatibleOperands_cases {permuted : Bool} {id : NodeId} {n : Node} {ts : List Tree}
    (ih : ∀ t ∈ ts, ∀ parent k, ∃ slots,
      incompatibleAt dst permuted (.operand parent k) t = some slots ∧
      ∀ first rest, slots = first :: rest →
        first = .operand parent k ∧ rest = [] ∧ ReadsOf dst t ∨
        Resolves dst permuted (.operand parent k) first rest t) :
    ∃ slots, incompatibleOperands dst permuted id 0 ts = some slots ∧
      ∀ first rest, slots = first :: rest → ∃ parent k x, first = .operand parent k ∧
        ReadsOf dst x ∧ ∀ id' m, m.kind = .identifier → m.name ≠ dst.name →
          ∃ n' ts', n'.kind = n.kind ∧
            Rewrites (fun _ => True) x (.node id' m []) first (.node id n ts) (.node id n' ts') ∧
            incompatibleOperands dst permuted id 0 ts' = some rest := by
  suffices H : ∀ us l, ts = l ++ us → ∃ slots,
      incompatibleOperands dst permuted id l.length us = some slots ∧
      ∀ first rest, slots = first :: rest → ∃ parent k x, first = .operand parent k ∧
        ReadsOf dst x ∧ ∀ id' m, m.kind = .identifier → m.name ≠ dst.name →
          ∃ n' us', n'.kind = n.kind ∧
            Rewrites (fun _ => True) x (.node id' m []) first (.node id n ts)
              (.node id n' (l ++ us')) ∧
            incompatibleOperands dst permuted id l.length us' = some rest from H ts [] rfl
  intro us
  induction us with
  | nil => exact fun l _ => ⟨[], rfl, by simp⟩
  | cons u us ihu =>
    intro l hts
    have hlen : l.length + 1 = (l ++ [u]).length := by simp
    obtain ⟨su, hsu, hu⟩ := ih u (by simp [hts]) id l.length
    obtain ⟨sr, hsr, hr⟩ := ihu (l ++ [u]) (by simp [hts])
    rw [← hlen] at hsr
    refine ⟨su ++ sr, by simp [incompatibleOperands, hsu, hsr], fun first rest heq => ?_⟩
    cases su with
    | nil =>
      obtain ⟨parent, k, x, hfirst, hx, hres⟩ := hr first rest heq
      refine ⟨parent, k, x, hfirst, hx, fun id' m hm hne => ?_⟩
      obtain ⟨n', us', hn', hrw, hrest⟩ := hres id' m hm hne
      refine ⟨n', u :: us', hn', by simpa using hrw, ?_⟩
      rw [← hlen] at hrest
      simp [incompatibleOperands, hsu, hrest]
    | cons s su =>
      obtain ⟨rfl, rfl⟩ := List.cons.inj heq
      subst hts
      rcases hu s su rfl with ⟨rfl, rfl, hread⟩ | ⟨parent, k, x, rfl, hx, hres⟩
      · refine ⟨id, l.length, u, rfl, hread, fun id' m hm hne => ?_⟩
        refine ⟨{ n with operands := n.operands.set l.length id' }, _ :: us, rfl, .here trivial, ?_⟩
        simp [incompatibleOperands, incompatibleAt, hm, hne, hsr]
      · refine ⟨parent, k, x, rfl, hx, fun id' m hm hne => ?_⟩
        obtain ⟨u', hrw, hrest⟩ := hres id' m hm hne
        refine ⟨n, u' :: us, rfl, .deeper trivial hrw, ?_⟩
        simp [incompatibleOperands, hrest, hsr]

/-- The search has a result; the first place that it finds is the whole tree or can be resolved. -/
theorem StoredIn.incompatibleAt_cases {t : Tree} (ht : t.StoredIn nodes)
    {C : Node → Prop} {S : Shapes} (htyped : t.Typed C S) (permuted : Bool) (slot : Slot) :
    ∃ slots, incompatibleAt dst permuted slot t = some slots ∧
      ∀ first rest, slots = first :: rest →
        first = slot ∧ rest = [] ∧ ReadsOf dst t ∨ Resolves dst permuted slot first rest t := by
  induction ht generalizing permuted slot with
  | @node id n ts _ _ _ ih =>
    have hts : ∀ t ∈ ts, t.Typed C S := by
      cases htyped with
      | node _ _ hts => exact hts
    by_cases hkind : n.kind = .identifier
    · rw [htyped.operands_eq_nil hkind]
      simp only [incompatibleAt, hkind, if_true]
      split
      · rename_i hname
        refine ⟨_, rfl, ?_⟩
        rintro first rest ⟨⟩
        exact .inl ⟨rfl, rfl, id, n, rfl, hkind, hname.1⟩
      · exact ⟨[], rfl, by simp⟩
    · simp only [incompatibleAt, hkind, if_false]
      obtain ⟨slots, hslots, hres⟩ := @incompatibleOperands_cases dst _ id n ts fun t ht parent k =>
        ih t ht (hts t ht) (permuted || n.kind.permutes) (.operand parent k)
      refine ⟨slots, hslots, fun first rest heq => .inr ?_⟩
      obtain ⟨parent, k, x, hfirst, hx, hrw⟩ := hres first rest heq
      refine ⟨parent, k, x, hfirst, hx, fun id' m hm hne => ?_⟩
      obtain ⟨n', ts', hn', hrw, hrest⟩ := hrw id' m hm hne
      exact ⟨_, hrw, by simpa [incompatibleAt, hn', hkind] using hrest⟩

theorem incompatibleOperands_nil {permuted : Bool} {id : NodeId} {k : Nat} {ts : List Tree}
    (h : incompatibleOperands dst permuted id k ts = some []) :
    ∀ t ∈ ts, ∃ slot, incompatibleAt dst permuted slot t = some [] := by
  induction ts generalizing k with
  | nil => simp
  | cons t ts ih =>
    simp only [incompatibleOperands, Option.bind_eq_bind, Option.bind_eq_some_iff, Option.pure_def,
      Option.some.injEq, List.append_eq_nil_iff] at h
    obtain ⟨_, h₁, _, h₂, rfl, rfl⟩ := h
    exact List.forall_mem_cons.mpr ⟨⟨_, h₁⟩, ih h₂⟩

/-- A tree without places to be resolved is aligned. -/
theorem Typed.aligned {C : Node → Prop} {S : Shapes} {t : Tree} (ht : t.Typed C S) {permuted : Bool}
    {slot : Slot} (h : incompatibleAt dst permuted slot t = some []) :
    t.Aligned dst ∧ (permuted = true → dst.name ∉ t.names) := by
  induction ht generalizing permuted slot with
  | @node id n ts hC hfits hts ih =>
    rw [incompatibleAt] at h
    split at h
    · rename_i hkind
      split at h
      · cases h
      · rename_i hname
        simp only [not_and, not_or, ne_eq, Decidable.not_not] at hname
        by_cases heq : n.name = dst.name
        · obtain ⟨hperm, hfixed, hswaps⟩ := hname heq
          exact ⟨.ident hkind hfixed hswaps, fun h => absurd h hperm⟩
        · have hnot : dst.name ∉ (Tree.node id n ts).names := by
            have hleaf := (show (Tree.node id n ts).Typed C S from .node hC hfits hts).operands_eq_nil hkind
            simp [hleaf, names_node, hkind, Ne.symm heq]
          exact ⟨.apart hnot, fun _ => hnot⟩
    · rename_i hkind
      have hal : ∀ t ∈ ts, t.Aligned dst ∧ ((permuted || n.kind.permutes) = true → dst.name ∉ t.names) := by
        intro t ht
        obtain ⟨slot, hslot⟩ := incompatibleOperands_nil h t ht
        exact ih t ht hslot
      have hnot : (permuted || n.kind.permutes) = true → dst.name ∉ (Tree.node id n ts).names := by
        intro hp
        rw [names_node, if_neg hkind, List.nil_append, List.mem_flatMap]
        rintro ⟨t, ht, hmem⟩
        exact (hal t ht).2 hp hmem
      refine ⟨?_, fun hp => hnot (by simp [hp])⟩
      cases hperm : n.kind.permutes with
      | true => exact .apart (hnot (by simp [hperm]))
      | false => exact .pointwise hkind hperm fun t ht => (hal t ht).1

end Tree

end LoopNest
