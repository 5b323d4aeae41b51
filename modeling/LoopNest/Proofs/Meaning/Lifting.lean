import LoopNest.Proofs.Meaning
import LoopNest.Proofs.Pass.Lifting

/-!
# Lifting an accepted program

On an accepted program, whose nodes may be shared, lifting succeeds for every selection of kinds
that leaves identifiers in place (`Pass.lift_accepted`). Afterwards the selected nodes stand at
roots and no node is shared, each tensor that was added is written once and read once after that,
and the meaning is the same.
-/

namespace LoopNest

/-! ## Tensors that are used once -/

/-- A tensor is written by one assignment, and read once, by a later one. -/
def Program.UsedOnce (p : Program) (name : String) : Prop :=
  ∃ before write between read after, p.assignments = before ++ write :: (between ++ read :: after) ∧
    p.Writes write name ∧ (∀ a ∈ before ++ between ++ read :: after, ¬ p.Writes a name) ∧
    (p.tree read.expr).names.count name = 1 ∧
    ∀ a ∈ before ++ write :: between ++ after, name ∉ (p.tree a.expr).names

/-- A tensor that is no input is written before it is read. -/
theorem WrittenFirst.exists_write {find : Symbols} {l r : List Clause} {c : Clause} {s : Symbol}
    {name : String} (h : WrittenFirst find [] (l ++ c :: r)) (hname : name ∈ c.tree.names)
    (hs : find name = some s) (hrole : s.role.isInput = false) : ∃ d ∈ l, d.name = name := by
  have hread := (writtenFirst_append.mp h).2.1 name hname s hs
  rw [hrole, List.append_nil, List.mem_reverse, List.mem_map] at hread
  exact hread.resolve_left (by simp)

theorem Program.Laid.usedOnce {p : Program} {cs : List Clause} (h : p.Laid cs)
    (hordered : WrittenFirst p.find [] cs) {name : String} {s : Symbol} (hs : p.find name = some s)
    (hrole : s.role.isInput = false) (hdefs : (cs.map Clause.name).count name = 1)
    (hreads : (cs.flatMap fun c => c.tree.names).count name = 1) : p.UsedOnce name := by
  obtain ⟨c, hc, hname⟩ := List.mem_flatMap.mp (List.one_le_count_iff.mp (Nat.le_of_eq hreads.symm))
  obtain ⟨l, after, rfl⟩ := List.append_of_mem hc
  obtain ⟨d, hd, hdname⟩ := hordered.exists_write hname hs hrole
  obtain ⟨before, between, rfl⟩ := List.append_of_mem hd
  -- the two counts leave nothing for the other clauses
  have hone : 1 ≤ c.tree.names.count name := List.one_le_count_iff.mpr hname
  simp only [List.map_append, List.map_cons, List.count_append, List.count_cons, hdname, beq_self_eq_true,
    if_true, List.append_assoc, List.cons_append] at hdefs
  simp only [List.flatMap_append, List.flatMap_cons, List.count_append, List.append_assoc,
    List.cons_append] at hreads
  have hwrites : ∀ e ∈ before ++ between ++ c :: after, e.name ≠ name := by
    intro e he heq
    have hcount : 1 ≤ ((before ++ between ++ c :: after).map Clause.name).count name :=
      List.one_le_count_iff.mpr (heq ▸ List.mem_map_of_mem he)
    simp only [List.map_append, List.map_cons, List.count_append, List.count_cons] at hcount
    omega
  have hothers : ∀ e ∈ before ++ d :: between ++ after, name ∉ e.tree.names := by
    intro e he hmem
    have hcount : 1 ≤ ((before ++ d :: between ++ after).flatMap fun c => c.tree.names).count name :=
      List.one_le_count_iff.mpr (List.mem_flatMap.mpr ⟨e, he, hmem⟩)
    simp only [List.flatMap_append, List.flatMap_cons, List.count_append] at hcount
    omega
  have hmem : ∀ e ∈ before ++ d :: between ++ c :: after, p.tree e.tree.root = e.tree := fun e he =>
    h.tree_eq he
  refine ⟨before.map Clause.assignment, d.assignment, between.map Clause.assignment, c.assignment,
    after.map Clause.assignment, by simp [h.assignments], (h.writes_iff (by simp)).mpr hdname, ?_, ?_, ?_⟩
  · simp only [← List.map_append, ← List.map_cons, List.forall_mem_map]
    intro e he hw
    exact hwrites e he ((h.writes_iff (by simp at he ⊢; tauto)).mp hw)
  · rw [show c.assignment.expr = c.tree.root from rfl, hmem c (by simp)]
    omega
  · simp only [← List.map_append, ← List.map_cons, List.forall_mem_map]
    intro e he
    rw [show e.assignment.expr = e.tree.root from rfl, hmem e (by simp at he ⊢; tauto)]
    exact hothers e he

namespace Pass

/-- Lifting selected kinds of nodes out of an accepted program succeeds. -/
theorem lift_accepted {p : Program} (h : p.Accepted) (htidy : p.Tidy) (hacyclic : p.Acyclic)
    {pred : NodeKind → Bool} (hpred : pred .identifier = false) :
    ∃ p', lift pred p = .ok () p' ∧
      (∀ a ∈ p'.assignments, Rooted pred (p'.tree a.expr)) ∧ p'.Unshared ∧
      (∀ name s, p'.find name = some s → p.find name = none →
        s.role = .synthesized ∧ p'.UsedOnce name) ∧
      p.find.Extends p'.find ∧ p.SameMeaning p' := by
  have horiginal := Program.Laid.original_of_acyclic h.laid hacyclic
  have hverified := h.clauses_verified htidy
  obtain ⟨p', cs', added, hrun, hshows, hrev, hlifts, hrooted, -⟩ :=
    lift_spec (N := .all) hpred h.laid horiginal htidy (fun _ _ _ => ⟨fun _ _ => trivial, trivial⟩)
      h.fits_all hverified
  refine ⟨p', hrun, hshows.laid.forall_trees hrooted, hshows.laid.unshared hshows.unshared,
    fun name s hs hnone => ?_, hrev.extended, ?_⟩
  · have hnew : p.find name ≠ some s := by
      rw [hnone]
      exact nofun
    obtain ⟨hrole, -⟩ := (hrev.new name s hs).resolve_left hnew
    obtain ⟨hdefs, hreads⟩ :=
      hlifts.count_eq htidy h.fits_all ((hlifts.symbols name s hs).resolve_left hnew)
    refine ⟨hrole, hshows.laid.usedOnce (hrev.verified hverified).ordered hs ?_ hdefs hreads⟩
    rw [hrole]
    rfl
  · refine h.sameMeaning (R := fun _ => True) (fun _ _ _ => trivial) (fun _ _ _ => trivial)
      fun hsymbols hadmits => ?_
    obtain ⟨p'', cs'', -, hrun', hshows', hrev', -⟩ :=
      lift_spec hpred h.laid horiginal htidy hsymbols (h.fits hadmits) hverified
    cases hrun.symm.trans hrun'
    exact ⟨cs'', hshows', hrev'.toRefines⟩

/-- `y = (x + x) * t0` -/
def doubledProduct : Program where
  name := "p"
  symbols := .ofList [⟨"x", [1], .input⟩, ⟨"y", [1], .output⟩, ⟨"t0", [1], .input⟩]
  names := { taken := ["t0", "y", "x"] }
  nodes := #[{ kind := .identifier, name := "x", shape := [1] },
    { kind := .add, shape := [1], operands := [0, 0] },
    { kind := .identifier, name := "t0", shape := [1] },
    { kind := .mul, shape := [1], operands := [1, 2] },
    { kind := .identifier, name := "y", shape := [1] }]
  assignments := [{ dst := 4, expr := 3 }]

theorem doubledProduct_accepted : doubledProduct.Accepted where
  verified := Program.verify_of_ledger rfl rfl (by decide) rfl rfl
  reads := by decide

theorem doubledProduct_tidy : doubledProduct.Tidy := ⟨by decide, by decide, by decide⟩

theorem doubledProduct_acyclic : doubledProduct.Acyclic := by
  refine ⟨id, fun id n hn op hop => ?_⟩
  match id with
  | 0 | 1 | 2 | 3 | 4 => cases hn; revert op; decide
  | _ + 5 => cases hn

/-- The sum is lifted, and `x` is read at two places. -/
theorem lift_accepted_doubledProduct : doubledProduct.Accepted ∧ doubledProduct.Tidy ∧
    doubledProduct.Acyclic ∧ ∃ p', lift (· == .add) doubledProduct = .ok () p' ∧
      (∀ a ∈ p'.assignments, Rooted (· == .add) (p'.tree a.expr)) ∧ p'.Unshared ∧
      (∀ name s, p'.find name = some s → doubledProduct.find name = none →
        s.role = .synthesized ∧ p'.UsedOnce name) ∧
      doubledProduct.find.Extends p'.find ∧ doubledProduct.SameMeaning p' :=
  ⟨doubledProduct_accepted, doubledProduct_tidy, doubledProduct_acyclic,
    lift_accepted doubledProduct_accepted doubledProduct_tidy doubledProduct_acyclic rfl⟩

/-- The same program, when `t0` is declared after the names were taken. -/
def lateProduct : Program := { doubledProduct with names := { taken := ["y", "x"] } }

theorem lateProduct_accepted : lateProduct.Accepted where
  verified := Program.verify_of_ledger rfl rfl (by decide) rfl rfl
  reads := by decide

/-- The lifted sum is written to `t0`, as if that name were fresh, and is read in its place. -/
theorem lift_captures_name :
    ¬ ∀ p : Program, p.Accepted → p.Acyclic → ∀ pred : NodeKind → Bool, pred .identifier = false →
      ∃ p', lift pred p = .ok () p' ∧ p.SameMeaning p' := by
  intro h
  obtain ⟨p', hrun, hsame⟩ := h lateProduct lateProduct_accepted doubledProduct_acyclic (· == .add) rfl
  simp only [lift, ← bind_assoc] at hrun
  obtain ⟨_, hrun⟩ := Edit.of_check_ok hrun
  obtain ⟨_, hrun⟩ := Edit.of_check_ok hrun
  obtain rfl := Edit.after_ok hrun
  let mem : Memory Int := ⟨[("x", ⟨[1], #[1]⟩), ("y", ⟨[1], #[0]⟩), ("t0", ⟨[1], #[0]⟩)]⟩
  let _ := Scalar.int
  obtain ⟨m, m', hm, hm', hy⟩ :=
    hsame mem mem (.of_entries (by decide)) (.of_entries (by decide)) fun _ _ _ _ => rfl
  cases hm
  cases hm'
  exact absurd (hy "y" _ rfl rfl) (by decide)

end Pass

end LoopNest
