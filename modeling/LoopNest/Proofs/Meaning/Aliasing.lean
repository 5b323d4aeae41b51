import LoopNest.Proofs.Meaning
import LoopNest.Proofs.Pass.Aliasing

/-!
# Copying the aliases of an accepted program

After `aliasCopy` no assignment of an accepted program reads its destination at an element other
than the one that it writes (`Pass.aliasCopy_accepted`). Its elements can therefore be computed and
stored one by one in any order (`Program.OrderFree`). The meaning is the same.
-/

namespace LoopNest

/-! ## Orders of the elements -/

section
variable {α : Type} [Scalar α]

/-- Runs an assignment element by element, in a given order of the indices of its result. -/
def Program.assignInOrder (p : Program) (a : Assignment) (visits : List (List Int)) (mem : Memory α) :
    Option (Memory α) := do
  let dst ← p.dst? a
  visits.foldlM (fun mem idx => runElement dst (p.tree a.expr) idx mem) mem

end

/-- In whatever order its elements are computed and stored, an assignment leaves the memory that it
leaves when its whole expression is evaluated first. -/
def Program.OrderFree (p : Program) : Prop :=
  ∀ {α : Type} [Scalar α] (mem : Memory α), mem.Holds p.find →
    ∀ a ∈ p.assignments, ∀ dst, p.dst? a = some dst →
      ∀ visits : List (List Int), visits.Perm (indices dst.shape) →
        ∃ m m', p.assignInOrder a visits mem = some m ∧ p.assignWhole a mem = some m' ∧
          ∀ name, m.get? name = m'.get? name

/-- An assignment that reads its destination at most where it writes is not sensitive to the order. -/
theorem Program.Laid.assignInOrder_eq {α : Type} [Scalar α] {N : NodeClass} (hN : N.Sized) {p : Program}
    {cs : List Clause} (hlaid : p.Laid cs) {c : Clause} (hc : c ∈ cs) (h : c.Fits N p.find)
    (halign : c.tree.Aligned c.target) {mem : Memory α} (hmem : mem.Holds p.find)
    {visits : List (List Int)} (hvisits : visits.Perm (indices c.target.shape)) :
    ∃ m m', p.assignInOrder c.assignment visits mem = some m ∧
      p.assignWhole c.assignment mem = some m' ∧ ∀ name, m.get? name = m'.get? name := by
  have hin : ∀ idx, idx ∈ visits ↔ InRange c.target.shape idx := fun idx =>
    hvisits.mem_iff.trans mem_indices
  obtain ⟨m, hrun, hm, halters, hcells⟩ := h.runElements_spec hN halign hmem.countable
    (hvisits.nodup_iff.mpr (nodup_indices _)) (fun idx => (hin idx).mp) hmem.fits (.refl _)
  rw [Clause.stepOn_eq_step fun idx => (hin idx).mpr] at hcells
  obtain ⟨m', hwhole, hm', halters', hcells'⟩ :=
    hlaid.assignWhole_spec hN hc h hmem.countable hmem.fits (.refl _)
  refine ⟨m, m', ?_, hwhole, fun name => ?_⟩
  · rw [assignInOrder, hlaid.dst?_eq hc, Option.bind_eq_bind, Option.bind_some,
      show c.assignment.expr = c.tree.root from rfl, hlaid.tree_eq hc]
    exact hrun
  · by_cases hname : name = c.name
    · obtain ⟨s, hs, -⟩ := h.declared
      subst hname
      exact hmem.get?_eq hm' hm hs hs fun sub hsub =>
        (hcells.trans hcells'.symm) c.name s.shape sub (Symbols.shapes_eq hs) hsub
    · exact (halters.others name hname).trans (halters'.others name hname).symm

/-! ## The pass -/

namespace Pass

theorem Compatible.incompatible_eq {p : Program} {cs : List Clause} (hlaid : p.Laid cs) {c : Clause}
    (hc : c ∈ cs) (h : Compatible c) : incompatible p c.assignment = some [] := by
  rw [incompatible, hlaid.dst?_eq hc, show c.assignment.expr = c.tree.root from rfl, hlaid.tree_eq hc]
  exact h

/-- Copying the aliases of an accepted program makes every assignment safe to run element by
element. -/
theorem aliasCopy_accepted {p : Program} (h : p.Accepted) (hunshared : p.Unshared) (htidy : p.Tidy) :
    ∃ p', aliasCopy p = .ok () p' ∧ (∀ a ∈ p'.assignments, incompatible p' a = some []) ∧
      p.find.Extends p'.find ∧ p.SameMeaning p' ∧ p'.OrderFree := by
  have hverified := h.clauses_verified htidy
  obtain ⟨p', cs', hrun, hshows, hrev, -, hcompat, -⟩ :=
    aliasCopy_spec (h.shows_all hunshared htidy) hverified
  -- the same run, seen in the class of nodes without negative extents
  have hsized : (∀ name s, p.find name = some s → ∀ d ∈ s.shape, 0 ≤ d) →
      ∃ cs', p'.Shows (.extents (0 ≤ ·) fun _ => True) cs' ∧
        Refines (.extents (0 ≤ ·) fun _ => True) p p.clauses p' cs' ∧ ∀ c ∈ cs', Compatible c := by
    intro hnonneg
    obtain ⟨p'', cs', hrun', hshows', hrev', -, hcompat', -⟩ :=
      aliasCopy_spec (h.shows hunshared htidy (R := fun _ => True) Int.natCast_nonneg
        (fun name s hs => ⟨hnonneg name s hs, trivial⟩) fun _ _ _ => trivial) hverified
    cases hrun.symm.trans hrun'
    exact ⟨cs', hshows', hrev'.toRefines, hcompat'⟩
  refine ⟨p', hrun, ?_, hrev.extended, ?_, ?_⟩
  · exact hshows.laid.forall_assignments fun c hc => (hcompat c hc).incompatible_eq hshows.laid hc
  · refine h.sameMeaning (R := fun _ => True) (fun _ _ _ => trivial) (fun _ _ _ => trivial)
      fun hsymbols _ => ?_
    obtain ⟨cs', hshows', href, -⟩ := hsized fun name s hs => (hsymbols name s hs).1
    exact ⟨cs', hshows', href⟩
  · intro α _ mem hmem a ha dst hdst visits hvisits
    obtain ⟨cs', hshows', -, hcompat'⟩ :=
      hsized fun name s hs => hmem.nonneg (hrev.extended name s hs)
    rw [hshows'.laid.assignments] at ha
    obtain ⟨c, hc, rfl⟩ := List.mem_map.mp ha
    rw [hshows'.laid.dst?_eq hc] at hdst
    cases hdst
    have hfits := hshows'.fits c hc
    exact hshows'.laid.assignInOrder_eq (NodeClass.sized_extents _) hc hfits
      ((hcompat' c hc).aligned hfits) hmem hvisits

/-- `y = transpose(y) + old0` -/
def turnedSum : Program where
  name := "p"
  symbols := .ofList [⟨"y", [2, 2], .inout⟩, ⟨"old0", [2, 2], .input⟩]
  names := { taken := ["old0", "y"] }
  nodes := #[{ kind := .identifier, name := "y", shape := [2, 2] },
    { kind := .transposition, shape := [2, 2], operands := [0], pairs := [⟨0, 1⟩] },
    { kind := .identifier, name := "old0", shape := [2, 2] },
    { kind := .add, shape := [2, 2], operands := [1, 2] },
    { kind := .identifier, name := "y", shape := [2, 2] }]
  assignments := [{ dst := 4, expr := 3 }]

theorem turnedSum_accepted : turnedSum.Accepted where
  verified := Program.verify_of_ledger rfl rfl (by decide) rfl rfl
  reads := by decide

theorem turnedSum_unshared : turnedSum.Unshared := by decide

theorem turnedSum_tidy : turnedSum.Tidy := ⟨by decide, by decide, by decide⟩

/-- The transposed read is replaced by one of a copy. -/
theorem aliasCopy_accepted_turnedSum : turnedSum.Accepted ∧ turnedSum.Unshared ∧ turnedSum.Tidy ∧
    ∃ p', aliasCopy turnedSum = .ok () p' ∧ (∀ a ∈ p'.assignments, incompatible p' a = some []) ∧
      turnedSum.find.Extends p'.find ∧ turnedSum.SameMeaning p' ∧ p'.OrderFree :=
  ⟨turnedSum_accepted, turnedSum_unshared, turnedSum_tidy,
    aliasCopy_accepted turnedSum_accepted turnedSum_unshared turnedSum_tidy⟩

/-- The same program, when `old0` is declared after the names were taken. -/
def lateSum : Program := { turnedSum with names := { taken := ["y"] } }

theorem lateSum_accepted : lateSum.Accepted where
  verified := Program.verify_of_ledger rfl rfl (by decide) rfl rfl
  reads := by decide

/-- The copy is written to `old0`, as if that name were fresh, and is read in its place. -/
theorem aliasCopy_captures_name :
    ¬ ∀ p : Program, p.Accepted → p.Unshared → ∃ p', aliasCopy p = .ok () p' ∧ p.SameMeaning p' := by
  intro h
  obtain ⟨p', hrun, hsame⟩ := h lateSum lateSum_accepted turnedSum_unshared
  simp only [aliasCopy, ← bind_assoc] at hrun
  obtain ⟨_, hrun⟩ := Edit.of_check_ok hrun
  obtain rfl := Edit.after_ok hrun
  let mem : Memory Int := ⟨[("y", ⟨[2, 2], #[1, 2, 3, 4]⟩), ("old0", ⟨[2, 2], #[0, 0, 0, 0]⟩)]⟩
  let _ := Scalar.int
  obtain ⟨m, m', hm, hm', hy⟩ :=
    hsame mem mem (.of_entries (by decide)) (.of_entries (by decide)) fun _ _ _ _ => rfl
  cases hm
  cases hm'
  exact absurd (hy "y" _ rfl rfl) (by decide)

end Pass

end LoopNest
