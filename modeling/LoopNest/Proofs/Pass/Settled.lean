import LoopNest.Proofs.Pass.Untransposing

/-!
# Programs on which a pass has nothing to do

Each pass looks for something: nodes with two places, selected nodes below a root, stacks, reads of
an overwritten destination, transpositions. Where there is nothing of the kind, the pass gives the
program back as it is, the table of nodes, the symbols and the supply of names included.
-/

namespace LoopNest.Pass

variable {N : NodeClass} {p : Program} {cs : List Clause}

/-! ## Selected nodes at roots -/

variable {pred : NodeKind → Bool}

theorem liftFrom_settled (h : p.Laid cs) (hrooted : ∀ c ∈ cs, Rooted pred c.tree)
    {l r : List Clause} (hcs : l ++ r = cs) :
    liftFrom pred r.length l.length p = .ok () p := by
  induction r generalizing l with
  | nil => rfl
  | cons c r ih =>
    have hc : c ∈ cs := by simp [← hcs]
    have ha : p.assignments[l.length]? = some c.assignment := by simp [h.assignments, ← hcs]
    have hnone : findNested pred (p.tree c.assignment.expr) = some none := by
      rw [show c.assignment.expr = c.tree.root from rfl, h.tree_eq hc]
      exact (hrooted c hc).findNested_eq (h.stored c hc)
    have hlift : liftAt pred (p.nodes.size + 1) l.length p = .ok l.length p := by
      rw [liftAt, Edit.bind_ok (Edit.assignment_run ha), Edit.bind_ok (Edit.query_run hnone)]
      rfl
    have hrest := ih (l := l ++ [c]) (by simpa using hcs)
    rw [List.length_append, List.length_singleton] at hrest
    rw [List.length_cons, liftFrom, Edit.bind_ok (Edit.query_some_run _)]
    exact (Edit.bind_ok hlift).trans hrest

/-- Nothing is lifted where the selected nodes stand at roots already. -/
theorem lift_settled (h : p.Shows N cs) (hv : Verified p.find cs)
    (hrooted : ∀ c ∈ cs, Rooted pred c.tree) : lift pred p = .ok () p := by
  rw [lift, Edit.bind_ok (unshare_settled h.laid h.unshared), Edit.bind_ok (Edit.query_some_run _),
    h.laid.assignments, List.length_map]
  exact (Edit.bind_ok (liftFrom_settled h.laid hrooted (l := []) rfl)).trans
    (lifted_checks_run h hv hrooted)

/-! ## No stacks -/

theorem unstackBelow_settled (h : p.Laid cs) (hkinds : ∀ c ∈ cs, c.tree.kind ≠ .stack) {n : Nat}
    (hn : n ≤ cs.length) : unstackBelow n p = .ok () p := by
  induction n with
  | zero => rfl
  | succ n ih =>
    have hc : cs[n] ∈ cs := List.getElem_mem hn
    have ha : p.assignments[n]? = some cs[n].assignment := by
      rw [h.assignments, List.getElem?_map, List.getElem?_eq_getElem hn, Option.map_some]
    have hstored := h.stored _ hc
    obtain ⟨root, ts, htree, hroot⟩ := hstored.exists_node
    have hkind : root.kind ≠ .stack := by
      have := hkinds _ hc
      rwa [htree] at this
    have hat : unstackAt n p = .ok () p := by
      change p.nodes[cs[n].assignment.expr]? = some root at hroot
      rw [unstackAt, Edit.bind_ok (Edit.assignment_run ha), Edit.bind_ok (Edit.node_run hroot),
        if_neg hkind]
      rfl
    rw [unstackBelow, Edit.bind_ok hat]
    exact ih (Nat.le_of_succ_le hn)

/-- Nothing is split where there is no stack. -/
theorem unstack_settled (h : p.Shows N cs) (hv : Verified p.find cs) (hpred : SelectsStacks pred)
    (hflat : ∀ c ∈ cs, Flat pred c) : unstack p = .ok () p := by
  have hverify : p.verify { noKinds := [.stack], noSharing := true } = some none := by
    refine Program.verify_eq_none h.laid h.tidy h.fits hv nofun rfl (fun _ => h.unshared) ?_
    intro c hc n hn
    rw [List.mem_singleton]
    exact (hflat c hc).kind_ne (h.laid.stored c hc) hpred hn
  rw [unstack, Edit.bind_ok (Edit.query_some_run _), h.laid.assignments, List.length_map,
    Edit.bind_ok (unstackBelow_settled h.laid (fun c hc => (hflat c hc).unstacked) (Nat.le_refl _))]
  exact Edit.verify_run hverify

/-! ## No overwritten reads -/

theorem copyFrom_settled (h : p.Laid cs) (hcompat : ∀ c ∈ cs, Compatible c)
    {l r : List Clause} (hcs : l ++ r = cs) :
    copyFrom r.length l.length p = .ok () p := by
  induction r generalizing l with
  | nil => rfl
  | cons c r ih =>
    have hc : c ∈ cs := by simp [← hcs]
    have ha : p.assignments[l.length]? = some c.assignment := by simp [h.assignments, ← hcs]
    have hslots : incompatible p c.assignment = some [] := by
      rw [incompatible, h.dst?_eq hc, show c.assignment.expr = c.tree.root from rfl, h.tree_eq hc]
      exact hcompat c hc
    have hat : copyAt l.length p = .ok false p := by
      rw [copyAt, Edit.bind_ok (Edit.assignment_run ha), Edit.bind_ok (Edit.query_run hslots)]
      rfl
    have hrest := ih (l := l ++ [c]) (by simpa using hcs)
    rw [List.length_append, List.length_singleton] at hrest
    rw [List.length_cons, copyFrom, Edit.bind_ok hat]
    exact hrest

/-- Nothing is copied where every expression reads its destination at the element written only. -/
theorem aliasCopy_settled (h : p.Shows N cs) (hv : Verified p.find cs)
    (hcompat : ∀ c ∈ cs, Compatible c) : aliasCopy p = .ok () p := by
  have hverify : p.verify { noSharing := true } = some none :=
    Program.verify_eq_none h.laid h.tidy h.fits hv nofun rfl (fun _ => h.unshared) (by simp)
  rw [aliasCopy, Edit.bind_ok (Edit.query_some_run _), h.laid.assignments, List.length_map]
  exact (Edit.bind_ok (copyFrom_settled h.laid hcompat (l := []) rfl)).trans
    (Edit.verify_run hverify)

/-! ## No transpositions -/

theorem Unturned.findTransposition_eq {c : Clause} (h : Unturned c) (hc : c.tree.StoredIn p.nodes) :
    findTransposition c.tree = some none := by
  rcases findTransposition_cases hc with ⟨hf, -⟩ | ⟨slot, x, t', -, ⟨n, hn, hkind⟩, hrw⟩
  · exact hf
  · obtain ⟨A, A', B, hlabels, -, -⟩ := hrw.labels
    have hmem := Tree.mem_labels_of_label? hn
    exact absurd hkind (h n (by rw [hlabels]; simp [hmem]))

theorem untransposeFrom_settled (h : p.Laid cs) (hunturned : ∀ c ∈ cs, Unturned c) {fuel : Nat}
    {l r : List Clause} (hcs : l ++ r = cs) (hfuel : r.length < fuel) :
    untransposeFrom fuel l.length p = .ok () p := by
  induction fuel generalizing l r with
  | zero => omega
  | succ fuel ih =>
    cases r with
    | nil =>
      have hnone : p.assignments[l.length]? = none := by simp [h.assignments, ← hcs]
      rw [untransposeFrom]
      refine (Edit.bind_ok Edit.get_run).trans ?_
      rw [hnone]
      rfl
    | cons c r =>
      have hc : c ∈ cs := by simp [← hcs]
      have ha : p.assignments[l.length]? = some c.assignment := by simp [h.assignments, ← hcs]
      have hnone : findTransposition (p.tree c.assignment.expr) = some none := by
        rw [show c.assignment.expr = c.tree.root from rfl, h.tree_eq hc]
        exact (hunturned c hc).findTransposition_eq (h.stored c hc)
      have hrest := ih (l := l ++ [c]) (r := r) (by simpa using hcs)
        (by simpa using hfuel)
      rw [List.length_append, List.length_singleton] at hrest
      rw [untransposeFrom_step ha]
      refine (Edit.bind_ok (Edit.query_run hnone)).trans ?_
      exact hrest

/-- Nothing is pushed down where there is no transposition. -/
theorem untranspose_settled (h : p.Shows N cs) (hv : Verified p.find cs)
    (hpred : SelectsStacks pred) (hflat : ∀ c ∈ cs, Flat pred c)
    (hunturned : ∀ c ∈ cs, Unturned c) : untranspose p = .ok () p := by
  have hverify : p.verify { noKinds := [.transposition, .stack], noSharing := true } = some none := by
    refine Program.verify_eq_none h.laid h.tidy h.fits hv nofun rfl (fun _ => h.unshared) ?_
    intro c hc n hn
    have hstack := (hflat c hc).kind_ne (h.laid.stored c hc) hpred hn
    simp only [List.mem_cons, List.not_mem_nil, or_false, not_or]
    exact ⟨hunturned c hc n hn, hstack⟩
  have hfuel : cs.length < pushBound p := by
    have := effort_lt h.laid
    rw [effort] at this
    omega
  have hloop := untransposeFrom_settled h.laid hunturned (l := []) rfl hfuel
  exact (Edit.bind_ok Edit.get_run).trans ((Edit.bind_ok hloop).trans (Edit.verify_run hverify))

end LoopNest.Pass
