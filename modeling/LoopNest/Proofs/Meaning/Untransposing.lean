import LoopNest.Proofs.Meaning
import LoopNest.Proofs.Pass.Untransposing

/-!
# Resolving the transpositions of an accepted program

On an accepted program without stacks the resolution of transpositions ends and succeeds
(`Pass.untranspose_accepted`). No transposition is left, the shape of every node is the one that its
operands give (`Program.ShapeGiven`), and the meaning is the same.
-/

namespace LoopNest

/-- No shape of the program has more axes than a machine word can number. -/
structure Program.Ranked (p : Program) : Prop where
  symbols : ∀ name s, p.find name = some s → s.shape.length < 0x8000000000000000
  nodes : ∀ (id : NodeId) (n : Node), p.nodes[id]? = some n → n.shape.length < 0x8000000000000000

/-- The shape of a node is the one that its operands give, and that of an identifier is the one of the
part of the tensor that it selects. -/
def Program.ShapeGiven (p : Program) (n : Node) : Prop :=
  (∃ ops, n.operands.mapM p.node? = some ops ∧ n.check (ops.map (·.shape)) = []) ∧
    (n.kind = .identifier → p.checkIdent n = [])

theorem Program.Ranked.of_entries {p : Program}
    (hsymbols : ∀ e ∈ p.symbols.table.entries, e.2.shape.length < 0x8000000000000000)
    (hnodes : ∀ n ∈ p.nodes, n.shape.length < 0x8000000000000000) : p.Ranked where
  symbols name s hs := hsymbols (name, s) (OrderedMap.mem_of_get? hs)
  nodes _ n hn := hnodes n (Array.mem_of_getElem? hn)

theorem Tree.Typed.exists_views {C : Node → Prop} {S : Shapes} {t : Tree} (h : t.Typed C S) :
    ∀ n ∈ t.labels, n.kind = .identifier → ∃ stored, S n.name = some stored ∧ n.Views stored := by
  induction h with
  | @node id n ts hC hfits hts ih =>
    intro m hm hk
    rw [labels_node, List.mem_cons, List.mem_flatMap] at hm
    rcases hm with rfl | ⟨t, ht, hm⟩
    · have hroot : (Tree.node id m ts).Typed C S := .node hC hfits hts
      exact hroot.identifier hk
    · exact ih t ht m hm hk

theorem Program.Shows.shapeGiven {N : NodeClass} {p : Program} {cs : List Clause} (h : p.Shows N cs)
    {c : Clause} (hc : c ∈ cs) {n : Node} (hn : n ∈ c.tree.labels) : p.ShapeGiven n := by
  have htyped := (h.fits c hc).typed
  have hplace := hn
  rw [← (Tree.map_places .root c.tree).1] at hplace
  obtain ⟨pl, hpl, rfl⟩ := List.mem_map.mp hplace
  obtain ⟨ops, hops, hfits⟩ := Tree.mem_places (h.laid.stored c hc) htyped pl hpl
  refine ⟨⟨ops, hops, hfits.check_eq_nil⟩, fun hk => ?_⟩
  obtain ⟨stored, hstored, hviews⟩ := htyped.exists_views _ hn hk
  obtain ⟨s, hs, rfl⟩ := Option.map_eq_some_iff.mp hstored
  exact hviews.checkIdent_eq_nil hs

namespace Pass

/-- Resolving the transpositions of an accepted program without stacks succeeds. -/
theorem untranspose_accepted {p : Program} (h : p.Accepted) (hunshared : p.Unshared) (htidy : p.Tidy)
    (hranked : p.Ranked)
    (hunstacked : ∀ a ∈ p.assignments, ∀ n ∈ (p.tree a.expr).labels, n.kind ≠ .stack) :
    ∃ p', untranspose p = .ok () p' ∧
      (∀ a ∈ p'.assignments, ∀ n ∈ (p'.tree a.expr).labels, n.kind ≠ .transposition) ∧
      (∀ a ∈ p'.assignments, ∀ n ∈ (p'.tree a.expr).labels, p'.ShapeGiven n) ∧
      p.find.Extends p'.find ∧ p.SameMeaning p' := by
  have hverified := h.clauses_verified htidy
  have hflat : ∀ c ∈ p.clauses, Flat (· == .stack) c := by
    intro c hc
    obtain ⟨a, ha, rfl⟩ := List.mem_map.mp hc
    have hplain : Plain (· == .stack) (p.clause a).tree := fun n hn => by
      simpa using hunstacked a ha n hn
    obtain ⟨id, n, ts, htree⟩ := (h.typed _ hc).exists_node
    refine ⟨hplain.rooted, ?_⟩
    rw [htree]
    exact hunstacked a ha n (by rw [show p.tree a.expr = _ from htree]; simp)
  have hnumbered : ∀ P : Int → Prop, (NodeClass.extents P (· < 0x8000000000000000)).Numbered :=
    fun _ _ _ hstored _ => .inr hstored.2
  have hpass : ∀ {P : Int → Prop}, p.Shows (.extents P (· < 0x8000000000000000)) p.clauses →
      ∃ p' cs', untranspose p = .ok () p' ∧ p'.Shows (.extents P (· < 0x8000000000000000)) cs' ∧
        Revises (.extents P (· < 0x8000000000000000)) p p.clauses p' cs' ∧ ∀ c ∈ cs', Unturned c := by
    intro P hshows
    obtain ⟨p', cs', hrun, hshows', hrev, -, hunturned, -⟩ :=
      untranspose_spec (hnumbered P) hshows hverified selectsStacks_stack hflat
    exact ⟨p', cs', hrun, hshows', hrev, hunturned⟩
  obtain ⟨p', cs', hrun, hshows, hrev, hunturned⟩ := hpass (h.shows (P := fun _ => True) hunshared htidy
    (fun _ => trivial) (fun name s hs => ⟨fun _ _ => trivial, hranked.symbols name s hs⟩) hranked.nodes)
  refine ⟨p', hrun, ?_, ?_, hrev.extended, ?_⟩
  · exact hshows.laid.forall_trees (P := fun t => ∀ n ∈ t.labels, n.kind ≠ .transposition) hunturned
  · exact hshows.laid.forall_trees (P := fun t => ∀ n ∈ t.labels, p'.ShapeGiven n)
      fun c hc n hn => hshows.shapeGiven hc hn
  · refine h.sameMeaning (R := (· < 0x8000000000000000)) hranked.symbols hranked.nodes
      fun hsymbols _ => ?_
    obtain ⟨p'', cs', hrun', hshows', hrev', -⟩ :=
      hpass (h.shows hunshared htidy Int.natCast_nonneg hsymbols hranked.nodes)
    cases hrun.symm.trans hrun'
    exact ⟨cs', hshows', hrev'.toRefines⟩

/-- `y = transpose(outer(x, x)) + t0` -/
def turnedProduct : Program where
  name := "p"
  symbols := .ofList [⟨"x", [2], .input⟩, ⟨"y", [2, 2], .output⟩, ⟨"t0", [2, 2], .input⟩]
  names := { taken := ["t0", "y", "x"] }
  nodes := #[{ kind := .identifier, name := "x", shape := [2] },
    { kind := .identifier, name := "x", shape := [2] },
    { kind := .product, shape := [2, 2], operands := [0, 1] },
    { kind := .transposition, shape := [2, 2], operands := [2], pairs := [⟨0, 1⟩] },
    { kind := .identifier, name := "t0", shape := [2, 2] },
    { kind := .add, shape := [2, 2], operands := [3, 4] },
    { kind := .identifier, name := "y", shape := [2, 2] }]
  assignments := [{ dst := 6, expr := 5 }]

theorem turnedProduct_accepted : turnedProduct.Accepted where
  verified := Program.verify_of_ledger rfl rfl (by decide) rfl rfl
  reads := by decide

theorem turnedProduct_unshared : turnedProduct.Unshared := by decide

theorem turnedProduct_tidy : turnedProduct.Tidy := ⟨by decide, by decide, by decide⟩

theorem turnedProduct_ranked : turnedProduct.Ranked := .of_entries (by decide) (by decide)

theorem turnedProduct_unstacked :
    ∀ a ∈ turnedProduct.assignments, ∀ n ∈ (turnedProduct.tree a.expr).labels, n.kind ≠ .stack := by
  decide

/-- The transposition mixes the axes of the product, which is computed into a tensor of its own. -/
theorem untranspose_accepted_turnedProduct : turnedProduct.Accepted ∧ turnedProduct.Unshared ∧
    turnedProduct.Tidy ∧ turnedProduct.Ranked ∧
    (∀ a ∈ turnedProduct.assignments, ∀ n ∈ (turnedProduct.tree a.expr).labels, n.kind ≠ .stack) ∧
    ∃ p', untranspose turnedProduct = .ok () p' ∧
      (∀ a ∈ p'.assignments, ∀ n ∈ (p'.tree a.expr).labels, n.kind ≠ .transposition) ∧
      (∀ a ∈ p'.assignments, ∀ n ∈ (p'.tree a.expr).labels, p'.ShapeGiven n) ∧
      turnedProduct.find.Extends p'.find ∧ turnedProduct.SameMeaning p' :=
  ⟨turnedProduct_accepted, turnedProduct_unshared, turnedProduct_tidy, turnedProduct_ranked,
    turnedProduct_unstacked, untranspose_accepted turnedProduct_accepted turnedProduct_unshared
      turnedProduct_tidy turnedProduct_ranked turnedProduct_unstacked⟩

/-- The same program, when `t0` is declared after the names were taken. -/
def lateOuter : Program := { turnedProduct with names := { taken := ["y", "x"] } }

theorem lateOuter_accepted : lateOuter.Accepted where
  verified := Program.verify_of_ledger rfl rfl (by decide) rfl rfl
  reads := by decide

/-- The product is written to `t0`, as if that name were fresh, and is read in its place. -/
theorem untranspose_captures_name :
    ¬ ∀ p : Program, p.Accepted → p.Unshared → p.Ranked →
      (∀ a ∈ p.assignments, ∀ n ∈ (p.tree a.expr).labels, n.kind ≠ .stack) →
        ∃ p', untranspose p = .ok () p' ∧ p.SameMeaning p' := by
  intro h
  obtain ⟨p', hrun, hsame⟩ := h lateOuter lateOuter_accepted turnedProduct_unshared
    (.of_entries (by decide) (by decide)) turnedProduct_unstacked
  simp only [untranspose, ← bind_assoc] at hrun
  obtain ⟨_, hrun⟩ := Edit.of_check_ok hrun
  obtain rfl := Edit.after_ok hrun
  let mem : Memory Int := ⟨[("x", ⟨[2], #[1, 2]⟩), ("y", ⟨[2, 2], #[0, 0, 0, 0]⟩),
    ("t0", ⟨[2, 2], #[0, 0, 0, 0]⟩)]⟩
  let _ := Scalar.int
  obtain ⟨m, m', hm, hm', hy⟩ :=
    hsame mem mem (.of_entries (by decide)) (.of_entries (by decide)) fun _ _ _ _ => rfl
  cases hm
  cases hm'
  exact absurd (hy "y" _ rfl rfl) (by decide)

end Pass

end LoopNest
