import Mathlib.Tactic.Linarith
import LoopNest.Proofs.Pass.Transposing

/-!
# Resolution of transpositions

The pass pushes transpositions down until none is left. Every step makes the weight of the clauses
that remain smaller, which bounds the number of steps (`untransposeFrom_spec`).
-/

namespace LoopNest.Pass

variable {N : NodeClass} {p : Program}

/-- No transposition is left. -/
def Unturned (c : Clause) : Prop := ∀ n ∈ c.tree.labels, n.kind ≠ .transposition

/-- What a clause is like when the passes are done. -/
structure Direct (c : Clause) : Prop where
  flat : Flat contractionOrStack c
  aligned : c.tree.Aligned c.target
  unturned : Unturned c

/-- A transposition is found that does not stand below another one, or there is none. -/
theorem findTransposition_cases {nodes : Array Node} {t : Tree} (ht : t.StoredIn nodes) :
    (findTransposition t = some none ∧ ∀ n ∈ t.labels, n.kind ≠ .transposition) ∨
      ∃ slot x t', findTransposition t = some (some slot) ∧
        (∃ n ∈ x.label?, n.kind = .transposition) ∧
        Tree.Rewrites (fun n => n.kind ≠ .transposition) x x slot t t' := by
  obtain ⟨n, ts, heq, -⟩ := ht.exists_node
  rw [heq] at ht ⊢
  by_cases hn : n.kind = .transposition
  · refine .inr ⟨.root, _, _, ?_, ⟨n, rfl, hn⟩, .root⟩
    simp [findTransposition, Tree.find, Tree.findFrom, hn]
  · have hcases := @Tree.StoredIn.find_cases nodes (fun _ n => n.kind == .transposition)
      (fun n => n.kind == .transposition) (fun _ _ _ => rfl) _ n ts ht (by simpa using hn)
      (fun n => n.kind ≠ .transposition) hn (by simp)
    rcases hcases with ⟨hf, hall⟩ | ⟨parent, k, x, t', hf, ⟨m, hm, hkind⟩, hrw⟩
    · refine .inl ⟨hf, fun m hm => ?_⟩
      rw [Tree.labels_node, List.mem_cons] at hm
      rcases hm with rfl | hm
      · exact hn
      · simpa using hall m hm
    · exact .inr ⟨_, x, t', hf, ⟨m, hm, by simpa using hkind⟩, hrw⟩

/-! ## The number of steps -/

/-- What bounds the number of steps that the clauses need. -/
def effort (cs : List Clause) : Nat := 2 * (cs.map fun c => weight c.tree).sum + cs.length

theorem effort_append (l r : List Clause) : effort (l ++ r) = effort l + effort r := by
  simp only [effort, List.map_append, List.sum_append, List.length_append]
  omega

theorem sum_le_square {τ : Type} {f g : τ → Nat} {l : List τ} (h : ∀ x ∈ l, f x ≤ g x * g x) :
    (l.map f).sum ≤ (l.map g).sum * (l.map g).sum := by
  induction l with
  | nil => exact Nat.le_refl _
  | cons x l ih =>
    have hx := h x (.head _)
    have hl := ih fun y hy => h y (List.mem_cons_of_mem _ hy)
    simp only [List.map_cons, List.sum_cons]
    nlinarith [Nat.zero_le (g x * (l.map g).sum)]

theorem weight_le (t : Tree) : weight t ≤ treeSize t * treeSize t := by
  induction t using Tree.inductionOn with
  | missing => exact Nat.zero_le _
  | node id n ts ih =>
    have hsum := sum_le_square ih
    rw [weight_node, treeSize_node]
    generalize (ts.map weight).sum = w at hsum
    generalize (ts.map treeSize).sum = m at hsum
    split <;> nlinarith

theorem effort_lt {cs : List Clause} (h : p.Laid cs) : effort cs < pushBound p := by
  have hsizes : treeSizes (p.assignments.map fun a => p.tree a.expr) =
      (cs.map fun c => treeSize c.tree).sum := by
    rw [treeSizes_eq, h.assignments, List.map_map, List.map_map]
    refine congrArg List.sum (List.map_congr_left fun c hc => ?_)
    exact congrArg treeSize (h.tree_eq hc)
  have hlen : p.assignments.length = cs.length := by rw [h.assignments, List.length_map]
  have hweights : (cs.map fun c => weight c.tree).sum ≤
      (cs.map fun c => treeSize c.tree).sum * (cs.map fun c => treeSize c.tree).sum :=
    sum_le_square fun c _ => weight_le c.tree
  simp only [effort, pushBound, hsizes, hlen]
  generalize (cs.map fun c => weight c.tree).sum = w at hweights
  generalize (cs.map fun c => treeSize c.tree).sum = m at hweights
  generalize cs.length = k
  have hbig : 2 * ((m + k + 2) * (m + k + 2)) ≤ (m + k + 2) * (m + k + 2) * (m + k + 2) := by
    rw [Nat.mul_comm 2]
    exact Nat.mul_le_mul_left _ (by omega)
  nlinarith [Nat.zero_le (m * k), Nat.zero_le (k * k)]

/-! ## The pass -/

theorem untransposeFrom_step {fuel i : Nat} {a : Assignment} (ha : p.assignments[i]? = some a) :
    untransposeFrom (fuel + 1) i p = (do
      match ← Edit.query fun p => findTransposition (p.tree a.expr) with
      | none => untransposeFrom fuel (i + 1)
      | some slot => do
        let dst ← Edit.dst a
        Edit.within (.statement i dst.name) (push i slot)
        untransposeFrom fuel i) p := by
  rw [untransposeFrom]
  refine (Edit.bind_ok Edit.get_run).trans ?_
  generalize p.assignments[i]? = found at ha ⊢
  subst ha
  rfl

/-- In `p'` the clauses `rest`, which stand behind `before`, are without transpositions, as `new`. -/
structure Resolved (N : NodeClass) (p : Program) (before rest : List Clause) (p' : Program)
    (new : List Clause) : Prop where
  shows : p'.Shows N (before ++ new)
  revises : Revises N p (before ++ rest) p' (before ++ new)
  single : KeepsSingle p.find (before ++ rest) p'.find (before ++ new)
  unturned : ∀ c ∈ before ++ new, Unturned c
  flat : KeepsFlat rest new
  aligned : KeepsAligned rest new

namespace Resolved

variable {p' p₁ : Program} {before rest mid new : List Clause} {c : Clause}

theorem nil (h : p.Shows N before) (hbefore : ∀ c ∈ before, Unturned c) :
    Resolved N p before [] p [] where
  shows := by simpa using h
  revises := .refl _ _ _
  single := .refl _ _
  unturned := by simpa using hbefore
  flat _ _ hflat := hflat
  aligned haligned := haligned

/-- The next clause has no transposition. -/
theorem skip (h : Resolved N p (before ++ [c]) rest p' new) :
    Resolved N p before (c :: rest) p' (c :: new) := by
  obtain ⟨hshows, hrev, hsingle, hunturned, hflat, haligned⟩ := h
  have hassoc : ∀ cs, (before ++ [c]) ++ cs = before ++ c :: cs := fun cs => by simp
  rw [hassoc] at hshows hunturned
  rw [hassoc, hassoc] at hrev hsingle
  refine ⟨hshows, hrev, hsingle, hunturned, fun pred hpred hcs => ?_, fun hcs => ?_⟩
  · rw [List.forall_mem_cons] at hcs ⊢
    exact hcs.imp_right (hflat pred hpred)
  · rw [List.forall_mem_cons] at hcs ⊢
    exact hcs.imp_right haligned

/-- A transposition of the next clause was pushed down. -/
theorem push (hpushed : Pushed N p p₁ before c rest mid)
    (h : Resolved N p₁ before (mid ++ rest) p' new) : Resolved N p before (c :: rest) p' new where
  shows := h.shows
  revises := hpushed.revises.trans h.revises
  single := hpushed.single.trans h.single
  unturned := h.unturned
  flat pred hpred hcs := by
    rw [List.forall_mem_cons] at hcs
    refine h.flat pred hpred fun d hd => ?_
    rcases List.mem_append.mp hd with hd | hd
    · exact hpushed.flat pred hpred (by simpa using hcs.1) d hd
    · exact hcs.2 d hd
  aligned hcs := by
    rw [List.forall_mem_cons] at hcs
    refine h.aligned fun d hd => ?_
    rcases List.mem_append.mp hd with hd | hd
    · exact hpushed.aligned (by simpa using hcs.1) d hd
    · exact hcs.2 d hd

end Resolved

/-- The transposition that is found in a clause is pushed down. -/
theorem push_found (hN : N.Numbered) {l r : List Clause} {c : Clause} (h : p.Shows N (l ++ c :: r))
    {slot : Slot} {x t' : Tree} (hx : ∃ n ∈ x.label?, n.kind = .transposition)
    (hrw : Tree.Rewrites (fun n => n.kind ≠ .transposition) x x slot c.tree t') :
    ∃ p' new, push l.length slot p = .ok () p' ∧ Pushed N p p' l c r new := by
  have hc : c ∈ l ++ c :: r := by simp
  obtain ⟨tn, htn, hkind⟩ := hx
  obtain ⟨xn, us, htree, -⟩ := (hrw.subtree (h.laid.stored c hc)).exists_node
  obtain rfl : xn = tn := by
    rw [htree] at htn
    exact Option.some.inj htn
  have htyped := hrw.typed_subtree (h.fits c hc).typed
  rw [htree] at htyped
  obtain ⟨u, rfl, -, -⟩ := transposition_typed htyped hkind
  generalize x.root = tid at htree
  subst htree
  exact push_spec hN ⟨h, hkind, t', hrw⟩

/-- The loop ends, and no transposition is left then. -/
theorem untransposeFrom_spec (hN : N.Numbered) {fuel : Nat} {before rest : List Clause}
    {p : Program} (h : p.Shows N (before ++ rest)) (hbefore : ∀ c ∈ before, Unturned c)
    (hfuel : effort rest < fuel) :
    ∃ p' new, untransposeFrom fuel before.length p = .ok () p' ∧ Resolved N p before rest p' new := by
  induction fuel generalizing before rest p with
  | zero => omega
  | succ fuel ih =>
    cases rest with
    | nil =>
      rw [List.append_nil] at h
      refine ⟨p, [], ?_, .nil h hbefore⟩
      have hnone : p.assignments[before.length]? = none := by simp [h.laid.assignments]
      rw [untransposeFrom]
      refine (Edit.bind_ok Edit.get_run).trans ?_
      rw [hnone]
      rfl
    | cons c rest =>
      have hc : c ∈ before ++ c :: rest := by simp
      have ha : p.assignments[before.length]? = some c.assignment := by simp [h.laid.assignments]
      have hquery : ∀ {b}, findTransposition c.tree = some b →
          findTransposition (p.tree c.assignment.expr) = some b := by
        intro b hb
        rw [show c.assignment.expr = c.tree.root from rfl, h.laid.tree_eq hc, hb]
      have heffort : effort (c :: rest) = 2 * weight c.tree + 1 + effort rest := by
        simp only [effort, List.map_cons, List.sum_cons, List.length_cons]
        omega
      rcases findTransposition_cases (h.laid.stored c hc) with ⟨hf, hnone⟩ | ⟨slot, x, t', hf, hx, hrw⟩
      · have hdone : ∀ d ∈ before ++ [c], Unturned d := by
          intro d hd
          rcases List.mem_append.mp hd with hd | hd
          · exact hbefore d hd
          · rw [List.mem_singleton.mp hd]
            exact hnone
        rw [List.append_cons] at h
        obtain ⟨p', new, hrun, hresolved⟩ := ih h hdone (by omega)
        rw [List.length_append] at hrun
        refine ⟨p', c :: new, ?_, hresolved.skip⟩
        rw [untransposeFrom_step ha]
        refine (Edit.bind_ok (Edit.query_run (hquery hf))).trans ?_
        exact hrun
      · obtain ⟨p₁, mid, hpush, hpushed⟩ := push_found hN h hx hrw
        have hmid : effort mid < 2 * weight c.tree + 1 := hpushed.weight
        obtain ⟨p', new, hrun, hresolved⟩ := ih hpushed.shows hbefore (by
          rw [effort_append]
          omega)
        refine ⟨p', new, ?_, hresolved.push hpushed⟩
        rw [untransposeFrom_step ha]
        refine (Edit.bind_ok (Edit.query_run (hquery hf))).trans ?_
        refine (Edit.bind_ok (Edit.query_run (h.laid.dst?_eq hc))).trans ?_
        exact (Edit.bind_ok (Edit.within_run hpush)).trans hrun

/-- The pass succeeds where there are no stacks, and it leaves no transposition. -/
theorem untranspose_spec (hN : N.Numbered) {cs : List Clause} (h : p.Shows N cs)
    (hv : Verified p.find cs) {pred : NodeKind → Bool} (hpred : SelectsStacks pred)
    (hflat : ∀ c ∈ cs, Flat pred c) :
    ∃ p' cs', untranspose p = .ok () p' ∧ p'.Shows N cs' ∧ Revises N p cs p' cs' ∧
      KeepsSingle p.find cs p'.find cs' ∧ (∀ c ∈ cs', Unturned c) ∧ (∀ c ∈ cs', Flat pred c) ∧ KeepsAligned cs cs' := by
  obtain ⟨p', cs', hrun, hshows, hrev, hsingle, hunturned, hflat', haligned⟩ :=
    untransposeFrom_spec hN (show p.Shows N ([] ++ cs) from h) (by simp) (effort_lt h.laid)
  have hflat' := hflat' pred hpred hflat
  refine ⟨p', cs', ?_, hshows, hrev, hsingle, hunturned, hflat', haligned⟩
  refine (Edit.bind_ok hrun).trans (Edit.verify_run ?_)
  refine Program.verify_eq_none hshows.laid hshows.tidy hshows.fits (hrev.verified hv) nofun rfl
    (fun _ => hshows.unshared) fun c hc n hn => ?_
  have hstack := (hflat' c hc).kind_ne (hshows.laid.stored c hc) hpred hn
  simp only [List.mem_cons, List.not_mem_nil, or_false, not_or]
  exact ⟨hunturned c hc n hn, hstack⟩

end LoopNest.Pass
