import LoopNest.Proofs.Edit

/-!
# Copies of trees

A copy of a tree has other nodes of the same kind at the same places. `Tree.strip` forgets the
numbers of the nodes, so a copy is a tree with the same stripped form; shape, value, names and
well-shapedness only depend on that form. `Program.clone` makes a copy out of new nodes
(`clone_spec`), and putting a copy in the place of an operand keeps the stripped forms of all
stored trees (`storedIn_graft`).
-/

namespace LoopNest

theorem Node.Alike.loadAt {α : Type} {n n' : Node} (h : n.Alike n') (cells : Cells α)
    (idx : List Int) : loadAt cells n' idx = loadAt cells n idx := by
  rw [h]
  rfl

/-- The value of a node depends on its operands through their ranks and values only. -/
theorem Node.evalWith_congr {α : Type} [Scalar α] {n n' : Node} {ts ts' : List Tree}
    {cells : Cells α} {values : List (List Int → Option α)} {idx : List Int} (h : n.Alike n')
    (hranks : ts'.map Tree.rank? = ts.map Tree.rank?)
    (hext : n'.contractedExtents ts' = n.contractedExtents ts) :
    n'.evalWith cells ts' values idx = n.evalWith cells ts values idx := by
  by_cases hk : n.kind = .stack
  · simp only [evalWith, ← h.kind, hk]
  · have hops : ∀ con : List Int, n'.operandIndices (ts'.map Tree.rank?) idx con =
        n.operandIndices (ts.map Tree.rank?) idx con := by
      intro con
      rw [hranks]
      exact (h.operandIndices hk).symm
    have hterm : ∀ k, n'.termWith ts' values idx k = n.termWith ts values idx k := by
      intro k
      simp only [termWith, hops]
    have hvalue : n'.value = n.value := by rw [h]
    simp only [evalWith, ← h.kind, hext, hterm, hops, h.loadAt cells, ← h.pairs, hvalue]

namespace Tree

mutual
/-- The tree without the numbers of its nodes. -/
def strip : Tree → Tree
  | .missing => .missing
  | .node _ n ts => .node 0 { n with operands := ts.map fun _ => 0 } (stripAll ts)

/-- Several trees without the numbers of their nodes. -/
def stripAll : List Tree → List Tree
  | [] => []
  | t :: ts => t.strip :: stripAll ts
end

theorem stripAll_eq (ts : List Tree) : stripAll ts = ts.map strip := by
  induction ts with
  | nil => rfl
  | cons t ts ih => rw [stripAll, ih, List.map_cons]

theorem strip_node (id : NodeId) (n : Node) (ts : List Tree) :
    (Tree.node id n ts).strip =
      .node 0 { n with operands := ts.map fun _ => 0 } (ts.map strip) := by
  rw [strip, stripAll_eq]

theorem strip_node_eq {id id' : NodeId} {n n' : Node} {ts ts' : List Tree} (hn : n.Alike n')
    (hts : ts'.map strip = ts.map strip) :
    (Tree.node id' n' ts').strip = (Tree.node id n ts).strip := by
  have hlen : ts'.length = ts.length := by simpa using congrArg List.length hts
  have hops : (ts'.map fun _ => (0 : NodeId)) = ts.map fun _ => 0 := by
    rw [List.map_const', List.map_const', hlen]
  rw [strip_node, strip_node, hts, hops, hn]

theorem eq_node_of_strip {t : Tree} {id : NodeId} {n : Node} {ts : List Tree}
    (h : t.strip = (Tree.node id n ts).strip) :
    ∃ id' n' ts', t = .node id' n' ts' ∧ n.Alike n' ∧ ts'.map strip = ts.map strip := by
  cases t with
  | missing =>
    rw [strip_node, strip] at h
    cases h
  | node id' n' ts' =>
    rw [strip_node, strip_node] at h
    injection h with _ hn hts
    refine ⟨id', n', ts', rfl, ?_, hts⟩
    obtain ⟨⟩ := n
    obtain ⟨⟩ := n'
    simp only [Node.mk.injEq] at hn
    simp only [Node.Alike, Node.mk.injEq, true_and]
    tauto

theorem shape_strip (t : Tree) : t.strip.shape = t.shape := by
  cases t with
  | missing => rfl
  | node => rw [strip_node]; rfl

theorem shape_eq_of_strip {t t' : Tree} (h : t'.strip = t.strip) : t'.shape = t.shape := by
  rw [← shape_strip t', h, shape_strip]

theorem names_strip (t : Tree) : t.strip.names = t.names := by
  induction t using Tree.inductionOn with
  | missing => rfl
  | node id n ts ih =>
    rw [strip_node, names_node, names_node, List.flatMap_map]
    congr 1
    exact List.flatMap_congr fun t ht => ih t ht

theorem names_eq_of_strip {t t' : Tree} (h : t'.strip = t.strip) : t'.names = t.names := by
  rw [← names_strip t', h, names_strip]

theorem rank?_strip (t : Tree) : t.strip.rank? = t.rank? := by
  cases t with
  | missing => rfl
  | node => rw [strip_node]; rfl

theorem eval_strip {α : Type} [Scalar α] (cells : Cells α) (t : Tree) :
    t.strip.eval cells = t.eval cells := by
  induction t using Tree.inductionOn with
  | missing => rfl
  | node id n ts ih =>
    funext idx
    have hvalues : (ts.map strip).map (Tree.eval cells) = ts.map (Tree.eval cells) := by
      rw [List.map_map]
      exact List.map_congr_left ih
    rw [strip_node, eval_node, eval_node, hvalues]
    refine Node.evalWith_congr (Node.alike_operands n _) ?_ ?_
    · rw [List.map_map]
      exact List.map_congr_left fun t _ => rank?_strip t
    · unfold Node.contractedExtents
      cases ts with
      | nil => rfl
      | cons t ts =>
        cases t with
        | missing => rfl
        | node => rw [List.map_cons, strip_node]; rfl

theorem eval_eq_of_strip {α : Type} [Scalar α] {cells : Cells α} {t t' : Tree}
    (h : t'.strip = t.strip) : t'.eval cells = t.eval cells := by
  rw [← eval_strip cells t', h, eval_strip]

theorem Typed.of_strip {C : Node → Prop} {S : Shapes} {nodes : Array Node} {t t' : Tree}
    (h : t.Typed C S) (hC : ∀ n ops, C n → C { n with operands := ops })
    (hstrip : t'.strip = t.strip) (hstored : t'.StoredIn nodes) : t'.Typed C S := by
  induction h generalizing t' with
  | @node id n ts hn hfits _ ih =>
    obtain ⟨id', n', ts', rfl, halike, hts⟩ := eq_node_of_strip hstrip
    have hlen : ts'.length = ts.length := by simpa using congrArg List.length hts
    have hshapes : ts'.map Tree.shape = ts.map Tree.shape := by
      have := congrArg (List.map Tree.shape) hts
      simpa [Function.comp_def, shape_strip] using this
    refine .node (halike ▸ hC n _ hn) ?_ fun u' hu' => ?_
    · rw [hshapes]
      refine hfits.alike halike fun hk => ?_
      rw [hstored.operands_eq, List.length_map, hlen]
      generalize hs : ts.map Tree.shape = shapes at hfits
      cases hfits with
      | stack _ hlen' => rw [hlen', ← hs, List.length_map]
      | _ => simp_all [NodeKind.isElementwise]
    · obtain ⟨j, hj, rfl⟩ := List.mem_iff_getElem.mp hu'
      have hj' : j < ts.length := hlen ▸ hj
      refine ih _ (List.getElem_mem hj') ?_ (hstored.operand hu')
      have := congrArg (fun l => l[j]?) hts
      simpa [hj, hj'] using this

end Tree

/-! ## Cloning -/

namespace Program

variable {p : Program}

/-- A copy below a node has the given stripped form, is stored, and consists of nodes from `size`
on that have one place each. -/
structure CopyOf (t s : Tree) (size : Nat) (nodes : Array Node) : Prop where
  strip : s.strip = t.strip
  stored : s.StoredIn nodes
  nodup : s.ids.Nodup
  new : ∀ x ∈ s.ids, size ≤ x

theorem mapThread_clone {fuel : Nat} {ts : List Tree}
    (ih : ∀ t ∈ ts, ∀ p : Program, t.StoredIn p.nodes → ∃ (s : Tree) (p' : Program),
      cloneWithin fuel p t.root = some (s.root, p') ∧ p.Grows p' ∧
        CopyOf t s p.nodes.size p'.nodes)
    {p : Program} (hts : ∀ t ∈ ts, t.StoredIn p.nodes) :
    ∃ (ss : List Tree) (p' : Program),
      mapThread (cloneWithin fuel) p (ts.map Tree.root) = some (ss.map Tree.root, p') ∧ p.Grows p' ∧
      ss.map Tree.strip = ts.map Tree.strip ∧ (∀ s ∈ ss, s.StoredIn p'.nodes) ∧
      (ss.flatMap Tree.ids).Nodup ∧ ∀ x ∈ ss.flatMap Tree.ids, p.nodes.size ≤ x := by
  induction ts generalizing p with
  | nil => exact ⟨[], p, rfl, .refl p, rfl, by simp, by simp, by simp⟩
  | cons t ts ihts =>
    obtain ⟨s, p₁, h₁, hg₁, hs⟩ := ih t (.head _) p (hts t (.head _))
    obtain ⟨ss, p₂, h₂, hg₂, hstrip, hstored, hnd, hnew⟩ :=
      ihts (fun u hu => ih u (List.mem_cons_of_mem _ hu)) (p := p₁) fun u hu =>
        hg₁.storedIn (hts u (List.mem_cons_of_mem _ hu))
    refine ⟨s :: ss, p₂, by simp [mapThread, h₁, h₂], hg₁.trans hg₂, by simp [hs.strip, hstrip],
      ?_, ?_, ?_⟩
    · simpa using ⟨hg₂.storedIn hs.stored, hstored⟩
    · rw [List.flatMap_cons, List.nodup_append]
      refine ⟨hs.nodup, hnd, ?_⟩
      rintro x hx _ hy rfl
      exact Nat.not_le.mpr (hs.stored.lt_size x hx) (hnew x hy)
    · intro x hx
      rw [List.flatMap_cons, List.mem_append] at hx
      rcases hx with hx | hx
      · exact hs.new x hx
      · exact Nat.le_trans hg₁.size_le (hnew x hx)

theorem cloneWithin_spec {t : Tree} (ht : t.StoredIn p.nodes) {fuel : Nat} (hfuel : t.depth ≤ fuel) :
    ∃ (s : Tree) (p' : Program), cloneWithin fuel p t.root = some (s.root, p') ∧ p.Grows p' ∧
      CopyOf t s p.nodes.size p'.nodes := by
  induction t using Tree.inductionOn generalizing p fuel with
  | missing => cases ht
  | node id n ts ih =>
    cases fuel with
    | zero =>
      rw [Tree.depth] at hfuel
      omega
    | succ fuel =>
      have hops : ∀ t ∈ ts, ∀ p : Program, t.StoredIn p.nodes →
          ∃ (s : Tree) (p' : Program), cloneWithin fuel p t.root = some (s.root, p') ∧ p.Grows p' ∧
            CopyOf t s p.nodes.size p'.nodes := by
        intro t ht p hp
        have : t.depth < (Tree.node id n ts).depth := Tree.depth_lt ht
        exact ih t ht hp (by omega)
      obtain ⟨ss, p₁, h₁, hg, hstrip, hstored, hnd, hnew⟩ :=
        mapThread_clone hops fun t h => ht.operand h
      have hnode : p.node? id = some n := ht.node_eq
      have hg₂ := Grows.push p₁ { n with operands := ss.map Tree.root }
      refine ⟨.node p₁.nodes.size { n with operands := ss.map Tree.root } ss, _, ?_,
        hg.trans hg₂, ?_, ?_, ?_, ?_⟩
      · simp only [cloneWithin, Tree.root_node, hnode, ht.operands_eq, h₁, Option.bind_eq_bind,
          Option.bind_some, Option.pure_def]
        rfl
      · exact Tree.strip_node_eq (Node.alike_operands _ _) hstrip
      · exact .node (p₁.add_node _) rfl fun s hs => hg₂.storedIn (hstored s hs)
      · rw [Tree.ids_node, List.nodup_cons]
        refine ⟨fun hmem => ?_, hnd⟩
        obtain ⟨s, hs, hx⟩ := List.mem_flatMap.mp hmem
        exact Nat.lt_irrefl _ ((hstored s hs).lt_size _ hx)
      · intro x hx
        rw [Tree.ids_node, List.mem_cons] at hx
        rcases hx with rfl | hx
        · exact hg.size_le
        · exact hnew x hx

/-- A clone is a copy made of new nodes. -/
theorem clone_spec {t : Tree} (ht : t.StoredIn p.nodes) :
    ∃ (s : Tree) (p' : Program), p.clone t.root = some (s.root, p') ∧ p.Grows p' ∧
      CopyOf t s p.nodes.size p'.nodes :=
  cloneWithin_spec ht ht.depth_le

end Program

/-- Two assignments that unfold to the same trees, up to the numbers of the nodes. -/
structure Program.SameTrees (p p' : Program) (a a' : Assignment) : Prop where
  dst : (p'.tree a'.dst).strip = (p.tree a.dst).strip
  expr : (p'.tree a'.expr).strip = (p.tree a.expr).strip
  fuseAxis : a'.fuseAxis = a.fuseAxis

/-- Putting a copy in the place of an operand keeps the stripped forms of the stored trees. -/
theorem Tree.StoredIn.graft {nodes nodes' : Array Node} {parent : NodeId} {k : Nat} {u s : Tree}
    (hframe : ∀ i < nodes.size, i ≠ parent → nodes'[i]? = nodes[i]?)
    (hparent : nodes'[parent]? =
      nodes[parent]?.map fun n => { n with operands := n.operands.set k s.root })
    (hu : u.StoredIn nodes) (hs : s.StoredIn nodes') (hstrip : s.strip = u.strip)
    (hop : ∀ n, nodes[parent]? = some n → n.operands[k]? = some u.root)
    {t : Tree} (ht : t.StoredIn nodes) :
    ∃ t' : Tree, t'.StoredIn nodes' ∧ t'.root = t.root ∧ t'.strip = t.strip := by
  induction ht with
  | @node id n ts hn hops hts ih =>
    have hall : ∀ l : List Tree, (∀ t ∈ l, t ∈ ts) → ∃ l' : List Tree,
        (∀ t ∈ l', t.StoredIn nodes') ∧ l'.map root = l.map root ∧ l'.map strip = l.map strip := by
      intro l
      induction l with
      | nil => exact fun _ => ⟨[], by simp, rfl, rfl⟩
      | cons t l ihl =>
        intro hsub
        obtain ⟨t', h₁, h₂, h₃⟩ := ih t (hsub t (.head _))
        obtain ⟨l', h₄, h₅, h₆⟩ := ihl fun t ht => hsub t (List.mem_cons_of_mem _ ht)
        exact ⟨t' :: l', by simpa using ⟨h₁, h₄⟩, by simp [h₂, h₅], by simp [h₃, h₆]⟩
    obtain ⟨ts', hts', hroots, hstrips⟩ := hall ts fun _ h => h
    by_cases hid : id = parent
    · subst hid
      have hk := hop n hn
      rw [hops] at hk
      obtain ⟨v, hv, hvu⟩ : ∃ v, ts[k]? = some v ∧ v.root = u.root := by
        rw [List.getElem?_map, Option.map_eq_some_iff] at hk
        exact hk
      have hvu' : v = u := (hts v (List.mem_of_getElem? hv)).unique hu hvu
      subst hvu'
      refine ⟨.node id { n with operands := n.operands.set k s.root } (ts'.set k s), ?_, rfl, ?_⟩
      · refine .node (by rw [hparent, hn]; rfl) ?_ fun t ht => ?_
        · rw [List.map_set, hroots, hops]
        · rcases List.mem_or_eq_of_mem_set ht with ht | rfl
          · exact hts' t ht
          · exact hs
      · refine strip_node_eq (Node.alike_operands _ _) ?_
        rw [List.map_set, hstrips, hstrip]
        apply List.ext_getElem?
        intro j
        rw [List.getElem?_set]
        split
        · rename_i hj
          subst hj
          simp only [List.getElem?_map, hv, Option.map_some]
          split
          · rfl
          · rename_i hlt
            have := (List.getElem?_eq_some_iff.mp hv).1
            simp at hlt
            omega
        · rfl
    · refine ⟨.node id n ts', .node ?_ (hops.trans hroots.symm) hts', rfl,
        strip_node_eq (.refl n) hstrips⟩
      rw [hframe id (Array.getElem?_eq_some_iff.mp hn).1 hid, hn]

end LoopNest
