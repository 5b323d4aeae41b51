import LoopNest.Proofs.Changes
import LoopNest.Proofs.Pass.Unsharing
import LoopNest.Proofs.Typed.Occurrences

/-!
# Building assignments

The program built from a valid typed program consists of copies of its clauses (`build_spec`). The
nodes of a shared expression are built once; that they may stand for all its occurrences rests on
the labels: all occurrences of a label are one expression (`Typed.Program.Coherent`). The symbols
and the names of whatever was built are those of the declarations (`build_eq_ok`).
-/

namespace LoopNest

namespace Typed

/-- All occurrences of a label are one and the same expression. -/
def LabelsCoherent (parts : List Expr) : Prop :=
  ∀ label e e', .shared label e ∈ parts → .shared label e' ∈ parts → e = e'

/-- All occurrences of a label in a program are one and the same expression. -/
def Program.Coherent (p : Program) : Prop :=
  LabelsCoherent (p.stmts.flatMap fun st => st.expr.parts)

end Typed

open Typed (Expr Stmt Scope)

theorem Tree.StoredIn.node_shape {nodes : Array Node} {t : Tree} (h : t.StoredIn nodes) :
    ∃ n, nodes[t.root]? = some n ∧ n.shape = t.shape := by
  obtain ⟨n, ts, heq, hn⟩ := h.exists_node
  exact ⟨n, hn, by rw [heq]; rfl⟩

namespace Building

variable {parts : List Expr} {b b' b'' : Building} {e : Expr} {es es' : List Expr} {t : Tree}
  {ts ts' : List Tree}

/-- A copy of the tree of an expression is stored, with its shared parts at their nodes. -/
structure Stands (b : Building) (e : Expr) (t : Tree) : Prop where
  stored : t.StoredIn b.program.nodes
  strip : t.strip = e.tree.strip
  sited : e.Sited b.program (fun label => b.memo.lookup label) t.root

theorem Stands.shape_eq (h : b.Stands e t) : t.shape = e.tree.shape := Tree.shape_eq_of_strip h.strip

/-- The nodes and the labels of one state are there in another. -/
structure Extends (b b' : Building) : Prop where
  nodes : ∀ (id : NodeId) n, b.program.nodes[id]? = some n → b'.program.nodes[id]? = some n
  memo : ∀ label id, b.memo.lookup label = some id → b'.memo.lookup label = some id

theorem Extends.trans (h : b.Extends b') (h' : b'.Extends b'') : b.Extends b'' :=
  ⟨fun id n hn => h'.nodes id n (h.nodes id n hn),
    fun label id hid => h'.memo label id (h.memo label id hid)⟩

theorem Extends.of_grows (hgrow : b.program.Grows b'.program) (hmemo : b'.memo = b.memo) :
    b.Extends b' :=
  ⟨fun _ _ hn => hgrow.node_eq hn, fun _ _ hid => hmemo ▸ hid⟩

theorem Stands.extend (h : b.Stands e t) (hext : b.Extends b') : b'.Stands e t := by
  refine ⟨h.stored.frame fun id hid => ?_, h.strip, h.sited.mono hext.nodes hext.memo⟩
  have hn := Array.getElem?_eq_getElem (h.stored.lt_size id hid)
  rw [hn, hext.nodes id _ hn]

theorem forall₂_extend (h : List.Forall₂ b.Stands es ts) (hext : b.Extends b') :
    List.Forall₂ b'.Stands es ts :=
  h.imp fun _ _ hstands => hstands.extend hext

theorem map_strip_stands (h : List.Forall₂ b.Stands es ts) :
    ts.map Tree.strip = (es.map Expr.tree).map Tree.strip := by
  induction h with
  | nil => rfl
  | cons hstands _ ih => rw [List.map_cons, List.map_cons, List.map_cons, hstands.strip, ih]

/-- The nodes of shared expressions are those of copies of their trees. -/
def Knows (parts : List Expr) (b : Building) : Prop :=
  ∀ label id, b.memo.lookup label = some id → ∃ (e : Expr) (t : Tree), .shared label e ∈ parts ∧
    b.Stands e t ∧ t.root = id

theorem Knows.grow (h : b.Knows parts) (hmemo : b'.memo = b.memo) (hext : b.Extends b') :
    b'.Knows parts := by
  intro label id hid
  rw [hmemo] at hid
  obtain ⟨e, t, he, ht, hroot⟩ := h label id hid
  exact ⟨e, t, he, ht.extend hext, hroot⟩

/-- Copies of the trees of expressions have been built. -/
structure Yields (parts : List Expr) (b b' : Building) (es : List Expr) (ts : List Tree) : Prop where
  stands : List.Forall₂ b'.Stands es ts
  grows : b.program.Grows b'.program
  memo : ∀ label id, b.memo.lookup label = some id → b'.memo.lookup label = some id
  /-- A label that does not occur in the expressions stays unknown. -/
  unknown : ∀ label, b.memo.lookup label = none → (∀ e ∈ es, ∀ x, .shared label x ∉ e.parts) →
    b'.memo.lookup label = none
  knows : b'.Knows parts

namespace Yields

theorem extension (h : Yields parts b b' es ts) : b.Extends b' :=
  ⟨fun _ _ hn => h.grows.node_eq hn, h.memo⟩

theorem single (h : Yields parts b b' [e] [t]) : b'.Stands e t := (List.forall₂_cons.mp h.stands).1

theorem pair {x y : Expr} {t u : Tree} (h : Yields parts b b' [x, y] [t, u]) :
    b'.Stands x t ∧ b'.Stands y u :=
  ⟨(List.forall₂_cons.mp h.stands).1, (List.forall₂_cons.mp (List.forall₂_cons.mp h.stands).2).1⟩

theorem nil (hb : b.Knows parts) : Yields parts b b [] [] :=
  ⟨.nil, .refl _, fun _ _ hid => hid, fun _ hnone _ => hnone, hb⟩

theorem append (h : Yields parts b b' es ts) (h' : Yields parts b' b'' es' ts') :
    Yields parts b b'' (es ++ es') (ts ++ ts') where
  stands := List.rel_append (forall₂_extend h.stands h'.extension) h'.stands
  grows := h.grows.trans h'.grows
  memo := (h.extension.trans h'.extension).memo
  unknown label hnone hes :=
    h'.unknown label (h.unknown label hnone fun e he => hes e (List.mem_append_left _ he))
      fun e he => hes e (List.mem_append_right _ he)
  knows := h'.knows

theorem swap {x y : Expr} {t u : Tree} (h : Yields parts b b' [x, y] [t, u]) :
    Yields parts b b' [y, x] [u, t] :=
  ⟨.cons h.pair.2 (.cons h.pair.1 .nil), h.grows, h.memo,
    fun label hnone hes => h.unknown label hnone fun e he => hes e (by simpa [or_comm] using he),
    h.knows⟩

end Yields

theorem expr_scale (op : NodeKind) (c x : Expr) (b : Building) :
    expr (.scale op c x) b = (expr c b).bind fun s => (expr x s.2).bind fun t =>
      if op = .scalarDiv then t.2.alloc (·.addScalarDiv t.1 s.1)
      else t.2.alloc (·.addScalarMul s.1 t.1) :=
  rfl

theorem expr_stack (members : List Expr) (b : Building) :
    expr (.stack members) b = (exprs members b).bind fun ms => ms.2.alloc (·.addStack ms.1) :=
  rfl

theorem expr_transpose (x : Expr) (pairs : List Swap) (b : Building) :
    expr (.transpose x pairs) b =
      (expr x b).bind fun t => t.2.alloc (·.addTransposition t.1 pairs) :=
  rfl

/-- A copy of the tree of an expression can be built. -/
def Builds (parts : List Expr) (b : Building) (e : Expr) : Prop :=
  ∃ (t : Tree) (b' : Building), Building.expr e b = some (t.root, b') ∧ Yields parts b b' [e] [t]

/-- Adding the node of an expression above its operands, which have been built. -/
theorem alloc_spec {f : Program → Option (NodeId × Program)} {n n₀ : Node}
    (h : Yields parts b b' e.operands ts) (hf : f b'.program = some (b'.program.add n))
    (hops : n.operands = ts.map Tree.root) (he : e.tree = .node 0 n₀ (e.operands.map Expr.tree))
    (hn : n₀.Alike n) (hlabel : ∀ label x, e ≠ .shared label x) :
    ∃ (t : Tree) (b'' : Building), b'.alloc f = some (t.root, b'') ∧ Yields parts b b'' [e] [t] := by
  let b'' : Building := { b' with program := (b'.program.add n).2 }
  have hpush : b'.program.Grows b''.program := .push b'.program n
  have hext : b'.Extends b'' := .of_grows hpush rfl
  have hstands := forall₂_extend h.stands hext
  have hnode : b''.program.nodes[b'.program.nodes.size]? = some n := Program.add_node _ _
  refine ⟨.node b'.program.nodes.size n ts, b'', ?_, .cons ⟨?_, ?_, ?_⟩ .nil, h.grows.trans hpush,
    h.memo, fun label hnone hes => h.unknown label hnone fun x hx y hy => ?_, h.knows.grow rfl hext⟩
  · rw [alloc, hf]
    rfl
  · refine .node hnode hops fun t ht => ?_
    obtain ⟨i, hi⟩ := List.mem_iff_getElem?.mp ht
    obtain ⟨_, -, hi⟩ := forall₂_getElem? hstands.flip hi
    exact hi.stored
  · rw [he]
    exact Tree.strip_node_eq hn (map_strip_stands hstands)
  · refine .node hnode hlabel ?_
    rw [hops, List.forall₂_map_right_iff]
    exact hstands.imp fun _ _ hx => hx.sited
  · exact hes e (.head _) y (Expr.parts_operand hx hy)

/-- Two operands are built one after the other. -/
theorem builds_pair {x y : Expr} (hx : b.Builds parts x)
    (hy : ∀ b' : Building, b'.Knows parts → b'.Builds parts y) :
    ∃ (t u : Tree) (b₁ b₂ : Building), Building.expr x b = some (t.root, b₁) ∧
      Building.expr y b₁ = some (u.root, b₂) ∧ Yields parts b b₂ [x, y] [t, u] := by
  obtain ⟨t, b₁, hrun₁, ht⟩ := hx
  obtain ⟨u, b₂, hrun₂, hu⟩ := hy b₁ ht.knows
  exact ⟨t, u, b₁, b₂, hrun₁, hrun₂, ht.append hu⟩

/-- Several operands are built one after the other. -/
theorem builds_all (hb : b.Knows parts)
    (h : ∀ e ∈ es, ∀ b' : Building, b'.Knows parts → b'.Builds parts e) :
    ∃ (ts : List Tree) (b' : Building), Building.exprs es b = some (ts.map Tree.root, b') ∧
      Yields parts b b' es ts := by
  induction es generalizing b with
  | nil => exact ⟨[], b, rfl, .nil hb⟩
  | cons e es ih =>
    obtain ⟨t, b₁, hrun₁, ht⟩ := h e (.head _) b hb
    obtain ⟨ts, b₂, hrun₂, hts⟩ := ih ht.knows fun e he => h e (List.mem_cons_of_mem _ he)
    refine ⟨t :: ts, b₂, ?_, ht.append hts⟩
    simp only [exprs, hrun₁, hrun₂, Option.bind_eq_bind, Option.bind_some]
    rfl

/-- A node above two operands in the order in which they are built. -/
theorem binary_spec {x y : Expr} {f : NodeId → NodeId → Program → Option (NodeId × Program)}
    {n : Node} (hx : b.Builds parts x) (hy : ∀ b' : Building, b'.Knows parts → b'.Builds parts y)
    (hops : e.operands = [x, y]) (he : e.tree = .node 0 n [x.tree, y.tree])
    (hlabel : ∀ label x, e ≠ .shared label x)
    (hf : ∀ (t u : Tree) (m k : Node) (p : Program), p.nodes[t.root]? = some m →
      p.nodes[u.root]? = some k → m.shape = x.tree.shape → k.shape = y.tree.shape →
      f t.root u.root p = some (p.add { n with operands := [t.root, u.root] })) :
    ∃ (v : Tree) (b' : Building), (do
      let (t, b) ← Building.expr x b
      let (u, b) ← Building.expr y b
      b.alloc (f t u)) = some (v.root, b') ∧ Yields parts b b' [e] [v] := by
  obtain ⟨t, u, b₁, b₂, hrun₁, hrun₂, h⟩ := builds_pair hx hy
  obtain ⟨ht, hu⟩ := h.pair
  obtain ⟨m, hm, hmshape⟩ := ht.stored.node_shape
  obtain ⟨k, hk, hkshape⟩ := hu.stored.node_shape
  have hadd := hf t u m k b₂.program hm hk (hmshape.trans ht.shape_eq) (hkshape.trans hu.shape_eq)
  obtain ⟨v, b₃, hrun₃, hv⟩ := alloc_spec (e := e) (hops ▸ h) hadd rfl (by rw [he, hops]; rfl)
    (Node.alike_operands n _) hlabel
  refine ⟨v, b₃, ?_, hv⟩
  simp only [hrun₁, hrun₂, Option.bind_eq_bind, Option.bind_some]
  exact hrun₃

/-- A quotient lists the tensor in front of the scalar, which is built first. -/
theorem quotient_spec {c x : Expr} (hc : b.Builds parts c)
    (hx : ∀ b' : Building, b'.Knows parts → b'.Builds parts x) :
    b.Builds parts (.scale .scalarDiv c x) := by
  obtain ⟨t, u, b₁, b₂, hrun₁, hrun₂, h⟩ := builds_pair hc hx
  have hu := h.pair.2
  obtain ⟨k, hk, hkshape⟩ := hu.stored.node_shape
  have hadd : b₂.program.addScalarDiv u.root t.root = some (b₂.program.add
      { kind := .scalarDiv, shape := u.shape, operands := [u.root, t.root] }) := by
    simp [Program.addScalarDiv, Program.node?, hk, hkshape]
  have htree : (Expr.scale .scalarDiv c x).tree = .node 0
      { kind := .scalarDiv, shape := u.shape, operands := [0, 0] } [x.tree, c.tree] := by
    rw [Expr.tree, if_pos rfl, hu.shape_eq]
  obtain ⟨v, b₃, hrun₃, hv⟩ := alloc_spec (e := .scale .scalarDiv c x)
    (f := (·.addScalarDiv u.root t.root)) h.swap hadd rfl htree (Node.alike_operands _ _) (by simp)
  refine ⟨v, b₃, ?_, hv⟩
  simp only [expr_scale, hrun₁, hrun₂, Option.bind_some]
  exact hrun₃

/-- A stack has the members that are built one after the other. -/
theorem stack_spec {e : Expr} (hb : b.Knows parts)
    (h : ∀ x ∈ e :: es, ∀ b' : Building, b'.Knows parts → b'.Builds parts x) :
    b.Builds parts (.stack (e :: es)) := by
  obtain ⟨ts, b', hrun, hts⟩ := builds_all hb h
  have hlen := hts.stands.length_eq
  cases ts with
  | nil => cases hlen
  | cons t ts =>
    obtain ⟨ht, -⟩ := List.forall₂_cons.mp hts.stands
    obtain ⟨n, hn, hshape⟩ := ht.stored.node_shape
    have hadd : b'.program.addStack ((t :: ts).map Tree.root) = some (b'.program.add
        { kind := .stack, shape := ((t :: ts).length : Int) :: t.shape,
          operands := (t :: ts).map Tree.root }) := by
      simp [Program.addStack, Program.node?, hn, hshape]
    have htree : (Expr.stack (e :: es)).tree = .node 0
        { kind := .stack, shape := ((t :: ts).length : Int) :: t.shape,
          operands := (e :: es).map fun _ => 0 } ((e :: es).map Expr.tree) := by
      rw [Expr.tree, Expr.trees_eq, ← hlen, ht.shape_eq]
      rfl
    obtain ⟨v, b₃, hrun₃, hv⟩ := alloc_spec (e := .stack (e :: es))
      (f := (·.addStack ((t :: ts).map Tree.root))) hts hadd rfl htree (Node.alike_operands _ _) (by simp)
    refine ⟨v, b₃, ?_, hv⟩
    simp only [expr_stack, hrun, Option.bind_some]
    exact hrun₃

/-- A transposition has the shape that the swaps make. -/
theorem transpose_spec {x : Expr} {sh : Shape} {pairs : List Swap} (hx : b.Builds parts x)
    (hfwd : forward pairs x.tree.shape = some sh) : b.Builds parts (.transpose x pairs) := by
  obtain ⟨t, b', hrun, h⟩ := hx
  have ht := h.single
  obtain ⟨n, hn, hshape⟩ := ht.stored.node_shape
  have hadd : b'.program.addTransposition t.root pairs = some (b'.program.add
      { kind := .transposition, shape := sh, operands := [t.root], pairs }) := by
    simp [Program.addTransposition, Program.node?, hn, hshape, ht.shape_eq, Shape.permute, hfwd]
  have htree : (Expr.transpose x pairs).tree = .node 0
      { kind := .transposition, shape := sh, operands := [0], pairs } [x.tree] := by
    rw [Expr.tree, hfwd]
    rfl
  obtain ⟨v, b₃, hrun₃, hv⟩ := alloc_spec (e := .transpose x pairs)
    (f := (·.addTransposition t.root pairs)) h hadd rfl htree (Node.alike_operands _ _) (by simp)
  refine ⟨v, b₃, ?_, hv⟩
  simp only [expr_transpose, hrun, Option.bind_some]
  exact hrun₃

/-- A shared expression is built once. -/
theorem shared_spec {label : Nat} (hcoh : Typed.LabelsCoherent parts)
    (hparts : ∀ part ∈ (Expr.shared label e).parts, part ∈ parts) (hb : b.Knows parts)
    (he : b.Builds parts e) : b.Builds parts (.shared label e) := by
  have hmem : Expr.shared label e ∈ parts := hparts _ (.head _)
  rw [Builds, expr]
  cases hmemo : b.memo.lookup label with
  | some id =>
    obtain ⟨e', t, he', ht, rfl⟩ := hb label id hmemo
    obtain rfl := hcoh label e e' hmem he'
    exact ⟨t, b, rfl, .cons ⟨ht.stored, ht.strip, ht.sited.shared hmemo⟩ .nil, .refl _,
      fun _ _ hid => hid, fun _ hnone _ => hnone, hb⟩
  | none =>
    obtain ⟨t, b', hrun, h⟩ := he
    -- the expression does not contain its own label, which is still unknown when it has been built
    have hnew : b'.memo.lookup label = none := by
      refine h.unknown label hmemo fun e' he' x hx => ?_
      obtain rfl := List.mem_singleton.mp he'
      obtain rfl := hcoh label e' x hmem (hparts _ (List.mem_cons_of_mem _ hx))
      exact Expr.shared_notMem_parts label e' hx
    let b'' : Building := { b' with memo := (label, t.root) :: b'.memo }
    have hlookup : b''.memo.lookup label = some t.root := List.lookup_cons_self
    have hne : ∀ {l}, l ≠ label → b''.memo.lookup l = b'.memo.lookup l := fun hl => by
      rw [List.lookup_cons, beq_eq_false_iff_ne.mpr hl]
    have hext : b'.Extends b'' := by
      refine ⟨fun _ _ hn => hn, fun l id hid => ?_⟩
      by_cases hl : l = label
      · rw [hl, hnew] at hid
        cases hid
      · rwa [hne hl]
    have ht' := h.single.extend hext
    refine ⟨t, b'', by simp [hrun, b''], .cons ⟨ht'.stored, ht'.strip, ht'.sited.shared hlookup⟩ .nil,
      h.grows, fun l id hid => hext.memo l id (h.memo l id hid), fun l hnone hl => ?_,
      fun l id hid => ?_⟩
    · rw [hne fun heq => hl _ (.head _) e (heq ▸ .head _)]
      refine h.unknown l hnone fun e' he' x hx => ?_
      obtain rfl := List.mem_singleton.mp he'
      exact hl _ (.head _) x (List.mem_cons_of_mem _ hx)
    · by_cases hl : l = label
      · rw [hl, hlookup] at hid
        cases hid
        exact ⟨e, t, hl ▸ hmem, ht', rfl⟩
      · rw [hne hl] at hid
        obtain ⟨e', t', he', hstands, hroot⟩ := h.knows l id hid
        exact ⟨e', t', he', hstands.extend hext, hroot⟩

/-- Building succeeds on an expression that obeys the shape rules. -/
theorem expr_spec {K : ShapeClass} {s : Scope} {sh : Shape} (h : e.Shaped K s sh)
    (hcoh : Typed.LabelsCoherent parts) (hparts : ∀ part ∈ e.parts, part ∈ parts)
    (hb : b.Knows parts) : b.Builds parts e := by
  induction h generalizing b with
  | ident => exact alloc_spec (.nil hb) rfl rfl rfl rfl (by simp)
  | const => exact alloc_spec (.nil hb) rfl rfl rfl rfl (by simp)
  | @binary op x y sh hop hx hy ihx ihy =>
    refine binary_spec (f := fun t u p => p.addBinary op t u)
      (ihx (fun e he => hparts e (by simp [Expr.parts, he])) hb)
      (fun b' => ihy fun e he => hparts e (by simp [Expr.parts, he])) rfl rfl (by simp) ?_
    intro t u m k p hm hk hmshape hkshape
    simp [Program.addBinary, Program.node?, hm, hmshape]
  | @product x y xs ys hx hy _ ihx ihy =>
    refine binary_spec (f := fun t u p => p.addProduct t u)
      (ihx (fun e he => hparts e (by simp [Expr.parts, he])) hb)
      (fun b' => ihy fun e he => hparts e (by simp [Expr.parts, he])) rfl rfl (by simp) ?_
    intro t u m k p hm hk hmshape hkshape
    simp [Program.addProduct, Program.node?, hm, hk, hmshape, hkshape]
  | @contract x y xs ys ls rs es hx hy _ _ _ ihx ihy =>
    refine binary_spec (f := fun t u p => p.addContraction t ls u rs)
      (ihx (fun e he => hparts e (by simp [Expr.parts, he])) hb)
      (fun b' => ihy fun e he => hparts e (by simp [Expr.parts, he])) rfl rfl (by simp) ?_
    intro t u m k p hm hk hmshape hkshape
    simp [Program.addContraction, Program.node?, hm, hk, hmshape, hkshape]
  | @scale op c x sh hop hc hx ihc ihx =>
    have hc' := ihc (fun e he => hparts e (by simp [Expr.parts, he])) hb
    have hx' := fun b' => @ihx b' fun e he => hparts e (by simp [Expr.parts, he])
    by_cases hdiv : op = .scalarDiv
    · subst hdiv
      exact quotient_spec hc' hx'
    · obtain ⟨v, b', hrun, hv⟩ := binary_spec (e := .scale op c x)
        (f := fun t u p => p.addScalarMul t u) hc' hx' (if_neg hdiv) (by rw [Expr.tree, if_neg hdiv])
        (by simp) (by
          intro t u m k p hm hk hmshape hkshape
          simp [Program.addScalarMul, Program.node?, hk, hkshape])
      refine ⟨v, b', ?_, hv⟩
      simp only [expr_scale, if_neg hdiv]
      exact hrun
  | stack _ _ ih =>
    exact stack_spec hb fun e he b' =>
      ih e he fun part hpart => hparts part (Expr.parts_operand (e := .stack _) he hpart)
  | transpose hx hfwd ih =>
    exact transpose_spec (ih (fun e he => hparts e (by simp [Expr.parts, he])) hb)
      (by rw [hx.tree_shape, hfwd])
  | shared _ ih =>
    exact shared_spec hcoh hparts hb (ih (fun part hpart => hparts part (List.mem_cons_of_mem _ hpart)) hb)

/-! ## Statements -/

/-- The program under construction consists of clauses. -/
structure Holds (parts : List Expr) (b : Building) (cs : List Clause) : Prop where
  knows : b.Knows parts
  laid : b.program.Laid cs
  dst : ∀ c ∈ cs, c.target.operands = []

/-- A statement adds a copy of its clause. -/
theorem stmt_spec {K : ShapeClass} {s : Scope} {cs : List Clause} {st : Stmt}
    (h : b.Holds parts cs) (hfind : b.program.find = s.find?) (hcoh : Typed.LabelsCoherent parts)
    (hparts : ∀ part ∈ st.expr.parts, part ∈ parts) (hst : s.Assigns K st) :
    ∃ b' c, b.stmt st = some b' ∧ b'.Holds parts (cs ++ [c]) ∧
      Pass.Clause.Copies (st.clause s.find?) c ∧ b'.Stands st.expr c.tree ∧ b.Extends b' ∧
      Pass.OnlyCode b.program b'.program := by
  obtain ⟨d, sh, hd, _, hfwd, hshaped⟩ := hst
  obtain ⟨t, b₁, hrun, hyields⟩ := expr_spec hshaped hcoh hparts h.knows
  have ht := hyields.single
  have hsym : b.program.symbols.find? st.dst = some d := (congrFun hfind st.dst).trans hd
  have htarget : st.target s.find? =
      { kind := .identifier, name := st.dst, shape := sh, perm := st.perm } := by
    simp [Stmt.target, hd, hfwd]
  have hpush := Program.Grows.push b₁.program (st.target s.find?)
  have hgrow := hyields.grows.trans hpush
  let b' : Building := { b₁ with program :=
    { (b₁.program.add (st.target s.find?)).2 with
      assignments := b₁.program.assignments ++ [{ dst := b₁.program.nodes.size, expr := t.root }] } }
  have hext : b₁.Extends b' := ⟨fun _ _ hn => hpush.node_eq hn, fun _ _ hid => hid⟩
  refine ⟨b', { dst := b₁.program.nodes.size, target := st.target s.find?, tree := t }, ?_,
    ⟨hyields.knows.grow rfl hext, ⟨?_, ?_, ?_⟩, ?_⟩, ⟨.refl _, ht.strip, rfl⟩, ht.extend hext,
    hyields.extension.trans hext, ?_⟩
  · simp only [Building.stmt, hsym, hrun, Shape.permute, hfwd, Option.bind_eq_bind, Option.bind_some]
    simp only [b', htarget]
    rfl
  · show b₁.program.assignments ++ _ = _
    rw [hyields.grows.assignments, h.laid.assignments, List.map_append]
    rfl
  · intro c hc
    rcases List.mem_append.mp hc with hc | hc
    · exact hgrow.node_eq (h.laid.target c hc)
    · rw [List.mem_singleton.mp hc]
      exact Program.add_node _ _
  · intro c hc
    rcases List.mem_append.mp hc with hc | hc
    · exact hgrow.storedIn (h.laid.stored c hc)
    · rw [List.mem_singleton.mp hc]
      exact hpush.storedIn ht.stored
  · intro c hc
    rcases List.mem_append.mp hc with hc | hc
    · exact h.dst c hc
    · rw [List.mem_singleton.mp hc, htarget]
  · obtain ⟨ext, hgrows⟩ := hyields.grows
    simp [b', Pass.OnlyCode, hgrows, Program.add]

/-- Several statements add copies of their clauses. -/
theorem stmts_spec {K : ShapeClass} {s : Scope} {cs : List Clause} {stmts : List Stmt}
    (h : b.Holds parts cs) (hfind : b.program.find = s.find?) (hcoh : Typed.LabelsCoherent parts)
    (hparts : ∀ st ∈ stmts, ∀ part ∈ st.expr.parts, part ∈ parts) (hst : s.Runs K stmts) :
    ∃ b' new, b.stmts stmts = some b' ∧ b'.Holds parts (cs ++ new) ∧
      List.Forall₂ Pass.Clause.Copies (stmts.map (Stmt.clause s.find?)) new ∧
      List.Forall₂ (fun st c => b'.Stands st.expr c.tree) stmts new ∧ b.Extends b' ∧
      Pass.OnlyCode b.program b'.program := by
  induction stmts generalizing b s cs with
  | nil =>
    exact ⟨b, [], rfl, by simpa using h, .nil, .nil, ⟨fun _ _ hn => hn, fun _ _ hid => hid⟩, rfl⟩
  | cons st rest ih =>
    obtain ⟨b₁, c, hrun₁, h₁, hcopy, hstands, hext₁, honly₁⟩ := stmt_spec h hfind hcoh (hparts st (.head _)) hst.1
    have hfind₁ : b₁.program.find = s.find? := by
      rw [← hfind, honly₁]
    obtain ⟨b₂, new, hrun₂, h₂, hcopies, hall, hext₂, honly₂⟩ :=
      ih (s := { s with written := st.dst :: s.written }) h₁ hfind₁
        (fun st hst => hparts st (List.mem_cons_of_mem _ hst)) hst.2
    refine ⟨b₂, c :: new, ?_, by simpa using h₂, .cons hcopy hcopies,
      .cons (hstands.extend hext₂) hall, hext₁.trans hext₂, honly₁.trans honly₂⟩
    rw [Building.stmts, hrun₁]
    exact hrun₂

end Building

/-! ## Programs -/

namespace Typed

variable {K : ShapeClass} {p : Program}

theorem entries_foldl_declare {ds : List Symbol} {t : SymbolTable}
    (hnd : (ds.map Symbol.name).Nodup) (hnew : ∀ d ∈ ds, d.name ∉ t.table.keys) :
    (ds.foldl SymbolTable.declare t).table.entries =
      t.table.entries ++ ds.map fun d => (d.name, d) := by
  induction ds generalizing t with
  | nil => simp
  | cons d ds ih =>
    rw [List.map_cons, List.nodup_cons] at hnd
    have hentries := OrderedMap.keys_insert t.table d.name d (hnew d (.head _))
    have hkeys : (t.declare d).table.keys = t.table.keys ++ [d.name] := by
      simp only [OrderedMap.keys, SymbolTable.declare, hentries, List.map_append]
      rfl
    rw [List.foldl_cons, ih hnd.2]
    · simp [SymbolTable.declare, hentries]
    · intro e he
      rw [hkeys, List.mem_append, List.mem_singleton, not_or]
      exact ⟨hnew e (List.mem_cons_of_mem _ he),
        fun h => hnd.1 (List.mem_map.mpr ⟨e, he, h⟩)⟩

theorem Program.Checked.entries_ofList (h : p.Checked K) :
    (SymbolTable.ofList p.decls).table.entries = p.decls.map fun d => (d.name, d) :=
  entries_foldl_declare h.nodup fun _ _ hmem => by cases hmem

theorem Program.Checked.find_ofList (h : p.Checked K) :
    (SymbolTable.ofList p.decls).find? = p.decl? := by
  funext name
  rw [SymbolTable.find?, OrderedMap.get?, h.entries_ofList, List.find?_map, Option.map_map,
    Program.decl?]
  exact congrFun Option.map_id _

theorem Program.Checked.tidy_empty (h : p.Checked K) :
    (LoopNest.Program.empty p.name (SymbolTable.ofList p.decls)).Tidy := by
  have hentries := h.entries_ofList
  have hkeys : (SymbolTable.ofList p.decls).table.keys = p.decls.map Symbol.name := by
    simp [OrderedMap.keys, hentries]
  refine ⟨hkeys ▸ h.nodup, fun e he => ?_, fun name hname => ?_⟩
  · rw [show (LoopNest.Program.empty p.name (SymbolTable.ofList p.decls)).symbols.table.entries =
      _ from hentries] at he
    obtain ⟨d, _, rfl⟩ := List.mem_map.mp he
    rfl
  · have hname : name ∈ p.decls.map Symbol.name := hkeys ▸ hname
    simpa [LoopNest.Program.empty, NameSupply.register, SymbolTable.all, OrderedMap.values,
      hentries] using hname

end Typed

/-- The program built from a valid typed program consists of copies of its clauses. -/
theorem build_spec {K : ShapeClass} {p : Typed.Program} (hvalid : p.Valid) (hcoh : p.Coherent)
    (h : p.Checked K) :
    ∃ q cs, build p = .ok q ∧ q.Laid cs ∧ (∀ c ∈ cs, c.target.operands = []) ∧
      List.Forall₂ Pass.Clause.Copies p.clauses cs ∧ q.Tidy ∧ q.find = p.decl? ∧
      q.fusion = none ∧ q.symbols = SymbolTable.ofList p.decls ∧
      ∃ site, List.Forall₂ (fun st c => st.expr.Sited q site c.tree.root) p.stmts cs := by
  let start : Building := { program := Program.empty p.name (SymbolTable.ofList p.decls) }
  have hstart : start.Holds (p.stmts.flatMap fun st => st.expr.parts) [] :=
    { knows := fun label id hid => (by cases hid)
      laid := ⟨rfl, by simp, by simp⟩
      dst := by simp }
  have hfind : start.program.find = ({ decls := p.decls } : Scope).find? := h.find_ofList
  obtain ⟨b, cs, hrun, hb, hcopies, hstands, -, honly⟩ := Building.stmts_spec hstart hfind hcoh
    (fun st hst part hpart => List.mem_flatMap.mpr ⟨st, hst, hpart⟩) h.runs
  refine ⟨b.program, cs, ?_, hb.laid, hb.dst, hcopies, ?_, ?_, ?_, ?_, fun label => b.memo.lookup label,
    hstands.imp fun _ _ h => h.sited⟩
  · simp only [build, show Typed.validate p = .ok () from hvalid]
    rw [show start.stmts p.stmts = some b from hrun]
    rfl
  · exact h.tidy_empty.congr (by rw [honly]) (by rw [honly])
  · rw [honly]
    exact h.find_ofList
  · rw [honly]
    rfl
  · rw [honly]
    rfl

/-! ## Symbols and names

A program that was built declares what the typed program declares, and exactly these names are taken,
whatever the labels of its expressions are. -/

/-- A node was added, and nothing else has changed. -/
def Program.Adds (p : Program) (r : Option (NodeId × Program)) : Prop :=
  ∀ id q, r = some (id, q) → p.SameHead q

theorem Program.Adds.add {p : Program} (n : Node) : p.Adds (some (p.add n)) := by
  rintro _ _ ⟨⟩
  exact ⟨⟨rfl, rfl⟩, rfl⟩

theorem Program.Adds.bind {p : Program} {τ : Type _} {x : Option τ} {f : τ → Option (NodeId × Program)}
    (h : ∀ y, p.Adds (f y)) : p.Adds (x >>= f) := by
  intro id q hq
  obtain ⟨y, -, hy⟩ := Option.bind_eq_some_iff.mp hq
  exact h y id q hy

namespace Building

variable {b b' : Building} {id : NodeId}

theorem alloc_sameHead {f : Program → Option (NodeId × Program)} (hf : ∀ p : Program, p.Adds (f p))
    (h : b.alloc f = some (id, b')) : b.program.SameHead b'.program := by
  obtain ⟨⟨id', q⟩, hq, h⟩ := Option.bind_eq_some_iff.mp h
  cases h
  exact hf b.program id q hq

theorem exprs_sameHead {es : List Typed.Expr} (he : ∀ e ∈ es, ∀ (b b' : Building) (id : NodeId),
      expr e b = some (id, b') → b.program.SameHead b'.program)
    {ids : List NodeId} (h : exprs es b = some (ids, b')) : b.program.SameHead b'.program := by
  induction es generalizing b ids with
  | nil =>
    cases h
    exact .refl _
  | cons e es ih =>
    rw [List.forall_mem_cons] at he
    simp only [exprs, Option.bind_eq_bind, Option.bind_eq_some_iff, Prod.exists] at h
    obtain ⟨id, b₁, h₁, ids', b₂, h₂, h⟩ := h
    cases h
    exact (he.1 _ _ _ h₁).trans (ih he.2 h₂)

theorem expr_sameHead {e : Typed.Expr} (h : expr e b = some (id, b')) :
    b.program.SameHead b'.program := by
  induction e using Typed.Expr.inductionOn generalizing b b' id with
  | missing => cases h
  | ident name dims => exact alloc_sameHead (fun _ => .add _) h
  | const v => exact alloc_sameHead (fun _ => .add _) h
  | binary op x y ihx ihy =>
    simp only [expr, Option.bind_eq_bind, Option.bind_eq_some_iff, Prod.exists] at h
    obtain ⟨_, b₁, h₁, _, b₂, h₂, h⟩ := h
    exact ((ihx h₁).trans (ihy h₂)).trans (alloc_sameHead (fun _ => .bind fun _ => .add _) h)
  | scale op c x ihc ihx =>
    simp only [expr, Option.bind_eq_bind, Option.bind_eq_some_iff, Prod.exists] at h
    obtain ⟨_, b₁, h₁, _, b₂, h₂, h⟩ := h
    apply ((ihc h₁).trans (ihx h₂)).trans
    split at h
    · exact alloc_sameHead (fun _ => .bind fun _ => .add _) h
    · exact alloc_sameHead (fun _ => .bind fun _ => .add _) h
  | product x y ihx ihy =>
    simp only [expr, Option.bind_eq_bind, Option.bind_eq_some_iff, Prod.exists] at h
    obtain ⟨_, b₁, h₁, _, b₂, h₂, h⟩ := h
    exact ((ihx h₁).trans (ihy h₂)).trans
      (alloc_sameHead (fun _ => .bind fun _ => .bind fun _ => .add _) h)
  | contract x xs y ys ihx ihy =>
    simp only [expr, Option.bind_eq_bind, Option.bind_eq_some_iff, Prod.exists] at h
    obtain ⟨_, b₁, h₁, _, b₂, h₂, h⟩ := h
    exact ((ihx h₁).trans (ihy h₂)).trans
      (alloc_sameHead (fun _ => .bind fun _ => .bind fun _ => .add _) h)
  | stack ms ih =>
    simp only [expr, Option.bind_eq_bind, Option.bind_eq_some_iff, Prod.exists] at h
    obtain ⟨ids, b₁, h₁, h⟩ := h
    exact (exprs_sameHead (fun e he _ _ _ => ih e he) h₁).trans
      (alloc_sameHead (fun _ => .bind fun _ => .bind fun _ => .add _) h)
  | transpose x pairs ih =>
    simp only [expr, Option.bind_eq_bind, Option.bind_eq_some_iff, Prod.exists] at h
    obtain ⟨_, b₁, h₁, h⟩ := h
    exact (ih h₁).trans (alloc_sameHead (fun _ => .bind fun _ => .bind fun _ => .add _) h)
  | shared label e ih =>
    rw [expr] at h
    split at h
    · cases h
      exact .refl _
    · simp only [Option.bind_eq_bind, Option.bind_eq_some_iff, Prod.exists] at h
      obtain ⟨_, b₁, h₁, h⟩ := h
      cases h
      have hsame := ih h₁
      exact hsame

theorem stmts_sameHead {ss : List Typed.Stmt} (h : b.stmts ss = some b') :
    b.program.SameHead b'.program := by
  induction ss generalizing b with
  | nil =>
    cases h
    exact .refl _
  | cons s ss ih =>
    obtain ⟨b₁, h₁, h⟩ := Option.bind_eq_some_iff.mp h
    simp only [stmt, Option.bind_eq_bind, Option.bind_eq_some_iff, Prod.exists] at h₁
    obtain ⟨symbol, -, id, b₂, h₂, shape, -, h₁⟩ := h₁
    cases h₁
    have hrest := ih h
    exact (expr_sameHead h₂).trans ⟨hrest.1, hrest.2⟩

end Building

variable {t : Typed.Program} {p : Program}

theorem build_eq_ok (h : build t = .ok p) :
    t.Valid ∧ (Program.empty t.name (SymbolTable.ofList t.decls)).SameHead p := by
  unfold build at h
  split at h
  · cases h
  · rename_i hvalid
    obtain ⟨b, hb, h⟩ := bind_eq_ok.mp h
    cases h
    refine ⟨hvalid, ?_⟩
    cases hstmts : Building.stmts { program := .empty t.name (.ofList t.decls) } t.stmts with
    | none =>
      rw [hstmts] at hb
      cases hb
    | some b' =>
      rw [hstmts] at hb
      cases hb
      exact Building.stmts_sameHead hstmts

/-- The keys of the symbol table of a program that was built are the names of its symbols, and these
are taken. -/
theorem build_tidy (h : build t = .ok p) : p.Tidy := by
  obtain ⟨hvalid, ⟨hsymbols, hnames⟩, -⟩ := build_eq_ok h
  exact (Typed.Program.Valid.checked hvalid t.within_positive).tidy_empty.congr hsymbols hnames

/-- No name is taken twice. -/
theorem build_taken_nodup (h : build t = .ok p) : p.names.taken.Nodup := by
  obtain ⟨hvalid, ⟨-, hnames⟩, -⟩ := build_eq_ok h
  have htidy := (Typed.Program.Valid.checked hvalid t.within_positive).tidy_empty
  rw [hnames]
  simpa [Program.empty, NameSupply.register] using htidy.names_nodup

end LoopNest
