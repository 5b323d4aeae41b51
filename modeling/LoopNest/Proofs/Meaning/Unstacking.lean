import LoopNest.Proofs.Meaning
import LoopNest.Proofs.Pass.Unstacking

/-!
# Splitting the stacks of an accepted program

When `unstack` succeeds on an accepted program whose stacks stand at roots, no stack is left and the
meaning is the same (`Pass.unstack_accepted`). A tensor of the program is still declared, unless it
was synthesized and the assignment that defined it now writes a slice of another tensor: nothing
mentions it any more.
-/

namespace LoopNest

/-- An assignment writes or reads a tensor. -/
def Program.Mentions (p : Program) (name : String) : Prop :=
  ∃ a ∈ p.assignments, p.Writes a name ∨ name ∈ (p.tree a.expr).names

/-- What is mentioned is declared. -/
theorem Program.Shows.declared_of_mentions {N : NodeClass} {p : Program} {cs : List Clause}
    (h : p.Shows N cs) {name : String} (hname : p.Mentions name) : ∃ s, p.find name = some s := by
  obtain ⟨a, ha, hname⟩ := hname
  rw [h.laid.assignments] at ha
  obtain ⟨c, hc, rfl⟩ := List.mem_map.mp ha
  rcases hname with hwrites | hreads
  · obtain ⟨s, hs, -⟩ := (h.fits c hc).declared
    exact ⟨s, (h.laid.writes_iff hc).mp hwrites ▸ hs⟩
  · exact (h.fits c hc).declared_name (h.laid.tree_eq hc ▸ hreads)

namespace Pass

/-- Splitting the stacks of an accepted program keeps its meaning, when the check at the end passes. -/
theorem unstack_accepted {p p' : Program} (h : p.Accepted) (hunshared : p.Unshared) (htidy : p.Tidy)
    (hrooted : ∀ a ∈ p.assignments, Rooted (· == .stack) (p.tree a.expr))
    (hrun : unstack p = .ok () p') :
    (∀ a ∈ p'.assignments, ∀ n ∈ (p'.tree a.expr).labels, n.kind ≠ .stack) ∧
      (∀ name s, p.find name = some s → p'.find name = some s ∨
        s.role.isSynthesized ∧ p'.find name = none ∧ ¬ p'.Mentions name) ∧
      p.SameMeaning p' := by
  have hroots : ∀ c ∈ p.clauses, Rooted (· == .stack) c.tree := by
    intro c hc
    obtain ⟨a, ha, rfl⟩ := List.mem_map.mp hc
    exact hrooted a ha
  -- the check at the end leaves the program that the pass made, in every class of nodes
  have hpass : ∀ {N : NodeClass}, p.Shows N p.clauses → ∃ cs', p'.Shows N cs' ∧
      Refines N p p.clauses p' cs' ∧ ∀ c ∈ cs', Flat (· == .stack) c := by
    intro N hshows
    obtain ⟨q, cs', heq, hshows', href, hflat, -⟩ := unstack_eq hshows selectsStacks_stack hroots
    obtain rfl := Edit.check_ok (heq.symm.trans hrun)
    exact ⟨cs', hshows', href.toRefines, hflat⟩
  obtain ⟨cs', hshows', href, hflat⟩ := hpass (h.shows_all hunshared htidy)
  refine ⟨?_, fun name s hs => ?_, ?_⟩
  · exact hshows'.laid.forall_trees (P := fun t => ∀ n ∈ t.labels, n.kind ≠ .stack) fun c hc n hn =>
      (hflat c hc).kind_ne (hshows'.laid.stored c hc) selectsStacks_stack hn
  · rcases href.kept name s hs with hkept | ⟨hrole, hnone, -⟩
    · exact .inl hkept
    · refine .inr ⟨hrole, hnone, fun hname => ?_⟩
      obtain ⟨s', hs'⟩ := hshows'.declared_of_mentions hname
      rw [hnone] at hs'
      cases hs'
  · refine h.sameMeaning (R := fun _ => True) (fun _ _ _ => trivial) (fun _ _ _ => trivial)
      fun hsymbols _ => ?_
    obtain ⟨cs', hshows', href, -⟩ := hpass (h.shows (R := fun _ => True) hunshared htidy
      Int.natCast_nonneg hsymbols fun _ _ _ => trivial)
    exact ⟨cs', hshows', href⟩

/-- `y = stack(y[1], s0)` -/
def shiftedPair : Program where
  name := "p"
  symbols := .ofList [⟨"y", [2], .inout⟩, ⟨"s0", [], .input⟩]
  names := { taken := ["s0", "y"] }
  nodes := #[{ kind := .identifier, name := "y", fixed := [1] },
    { kind := .identifier, name := "s0" },
    { kind := .stack, shape := [2], operands := [0, 1] },
    { kind := .identifier, name := "y", shape := [2] }]
  assignments := [{ dst := 3, expr := 2 }]

theorem shiftedPair_accepted : shiftedPair.Accepted where
  verified := Program.verify_of_ledger rfl rfl (by decide) rfl rfl
  reads := by decide

theorem shiftedPair_unshared : shiftedPair.Unshared := by decide

theorem shiftedPair_tidy : shiftedPair.Tidy := ⟨by decide, by decide, by decide⟩

theorem shiftedPair_rooted :
    ∀ a ∈ shiftedPair.assignments, Rooted (· == .stack) (shiftedPair.tree a.expr) := by
  unfold Rooted
  decide

theorem unstack_shiftedPair : unstack shiftedPair = .ok () ((unstackBelow 1).after shiftedPair) := by
  have hlast : unstack shiftedPair = Edit.verify { noKinds := [.stack], noSharing := true }
      ((unstackBelow 1).after shiftedPair) := rfl
  exact hlast.trans (Edit.verify_run (Program.verify_of_ledger rfl rfl (by decide) rfl rfl))

/-- The member that reads the destination is computed before the first slice is written. -/
theorem unstack_accepted_shiftedPair : shiftedPair.Accepted ∧ shiftedPair.Unshared ∧ shiftedPair.Tidy ∧
    (∀ a ∈ shiftedPair.assignments, Rooted (· == .stack) (shiftedPair.tree a.expr)) ∧
    ∃ p', unstack shiftedPair = .ok () p' ∧
      (∀ a ∈ p'.assignments, ∀ n ∈ (p'.tree a.expr).labels, n.kind ≠ .stack) ∧
      (∀ name s, shiftedPair.find name = some s → p'.find name = some s ∨
        s.role.isSynthesized ∧ p'.find name = none ∧ ¬ p'.Mentions name) ∧
      shiftedPair.SameMeaning p' :=
  ⟨shiftedPair_accepted, shiftedPair_unshared, shiftedPair_tidy, shiftedPair_rooted, _,
    unstack_shiftedPair, unstack_accepted shiftedPair_accepted shiftedPair_unshared shiftedPair_tidy
      shiftedPair_rooted unstack_shiftedPair⟩

/-- The same program, when `s0` is declared after the names were taken. -/
def latePair : Program := { shiftedPair with names := { taken := ["y"] } }

theorem latePair_accepted : latePair.Accepted where
  verified := Program.verify_of_ledger rfl rfl (by decide) rfl rfl
  reads := by decide

theorem unstack_latePair : unstack latePair = .ok () ((unstackBelow 1).after latePair) := by
  have hlast : unstack latePair = Edit.verify { noKinds := [.stack], noSharing := true }
      ((unstackBelow 1).after latePair) := rfl
  exact hlast.trans (Edit.verify_run (Program.verify_of_ledger rfl rfl (by decide) rfl rfl))

/-- The first member is written to `s0`, as if that name were fresh, before `s0` is read. -/
theorem unstack_captures_name :
    ¬ ∀ p p' : Program, p.Accepted → p.Unshared →
      (∀ a ∈ p.assignments, Rooted (· == .stack) (p.tree a.expr)) → unstack p = .ok () p' →
        p.SameMeaning p' := by
  intro h
  let mem : Memory Int := ⟨[("y", ⟨[2], #[1, 2]⟩), ("s0", ⟨[], #[0]⟩)]⟩
  let _ := Scalar.int
  obtain ⟨m, m', hm, hm', hy⟩ :=
    h latePair _ latePair_accepted shiftedPair_unshared shiftedPair_rooted unstack_latePair mem mem
      (.of_entries (by decide)) (.of_entries (by decide)) fun _ _ _ _ => rfl
  cases hm
  cases hm'
  exact absurd (hy "y" _ rfl rfl) (by decide)

end Pass

end LoopNest
