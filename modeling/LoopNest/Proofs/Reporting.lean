import LoopNest.Proofs.Acceptance

/-!
# Reports of the checks

`Program.verify` gives a result for every program whose nodes are in the table, whose table has no
cycles and whose nodes have the operands that their texts show (`Program.Stored.verify_reports`):
there is no error when nothing was found, and otherwise one internal error with an entry for each
violation. The checks themselves need no operands (`Program.Stored.violations_isSome`), but an entry
shows its assignment, so an expression that cannot be shown leaves its violations unreported
(`Program.Stored.verify_isSome_iff`).
-/

namespace LoopNest

theorem isSome_mapM_iff {σ τ : Type} {f : σ → Option τ} {l : List σ} :
    (l.mapM f).isSome ↔ ∀ x ∈ l, (f x).isSome := by
  induction l with
  | nil => simp
  | cons x l ih =>
    rw [List.forall_mem_cons, ← ih, List.mapM_cons]
    cases f x <;> cases l.mapM f <;> simp

/-! ## Entries of an error -/

/-- The errors that were put together in an error. -/
def Diagnostic.entries : Diagnostic → List Diagnostic
  | .several ds => ds
  | d => [d]

theorem Diagnostic.exists_combine {ds : List Diagnostic} (hne : ds ≠ [])
    (h : ∀ d ∈ ds, d.entries = [d]) : ∃ d, combine ds = some d ∧ d.entries = ds := by
  match ds with
  | [] => exact absurd rfl hne
  | [d] => exact ⟨d, rfl, h d (.head _)⟩
  | d :: e :: ds => exact ⟨.several (d :: e :: ds), rfl, rfl⟩

theorem Program.entries_violationDiagnostic {p : Program} {e : Option Nat × Violation} {d : Diagnostic}
    (h : p.violationDiagnostic e = some d) : d.entries = [d] := by
  obtain ⟨_ | i, v⟩ := e
  · cases h
    rfl
  · simp only [violationDiagnostic, Option.bind_eq_bind, Option.bind_eq_some_iff] at h
    obtain ⟨_, -, _, -, h⟩ := h
    cases h
    rfl

/-! ## Texts of expressions -/

/-- A node has the operands that its kind asks for. It may have more. -/
def Node.Complete (n : Node) : Prop := ∀ k ∈ n.kind.arity?, k ≤ n.operands.length

instance {n : Node} : Decidable n.Complete :=
  inferInstanceAs (Decidable (∀ k ∈ n.kind.arity?, k ≤ n.operands.length))

theorem Node.renderWith_isSome {n : Node} (h : n.Complete) {ops : List (Option String)}
    (hlen : ops.length = n.operands.length) (hops : ∀ o ∈ ops, o.isSome) : (n.renderWith ops).isSome := by
  have hop : ∀ {k i : Nat}, n.kind.arity? = some k → i < k → ∃ text, (ops[i]?).join = some text := by
    intro k i hk hi
    have hi' : i < ops.length := hlen ▸ Nat.lt_of_lt_of_le hi (h k hk)
    obtain ⟨text, htext⟩ := Option.isSome_iff_exists.mp (hops _ (List.getElem_mem hi'))
    exact ⟨text, by rw [List.getElem?_eq_getElem hi', htext]; rfl⟩
  have hpair : n.kind.arity? = some 2 → ∃ x y, (ops[0]?).join = some x ∧ (ops[1]?).join = some y := by
    intro hk
    obtain ⟨x, hx⟩ := hop hk Nat.two_pos
    obtain ⟨y, hy⟩ := hop hk Nat.one_lt_two
    exact ⟨x, y, hx, hy⟩
  cases hk : n.kind with
  | invalid | identifier | constant | unknown => simp [renderWith, hk]
  | add | sub | mul | div | scalarMul | scalarDiv | product | contraction =>
    obtain ⟨x, y, hx, hy⟩ := hpair (by rw [hk]; rfl)
    simp [renderWith, hk, hx, hy]
  | transposition =>
    obtain ⟨x, hx⟩ := hop (show n.kind.arity? = some 1 by rw [hk]; rfl) Nat.one_pos
    simp [renderWith, hk, hx]
  | stack =>
    have htexts : ops.mapM id = some (ops.map (·.getD "")) := mapM_eq_some_map fun o ho => by
      obtain ⟨text, rfl⟩ := Option.isSome_iff_exists.mp (hops o ho)
      rfl
    simp [renderWith, hk, htexts]

theorem Tree.renderAll_eq (ts : List Tree) : renderAll ts = ts.map render := by
  induction ts with
  | nil => rfl
  | cons t ts ih => rw [renderAll, ih, List.map_cons]

/-- A stored expression of complete nodes has a text. -/
theorem Tree.StoredIn.render_isSome {nodes : Array Node} {t : Tree} (h : t.StoredIn nodes)
    (hcomplete : ∀ n ∈ t.labels, n.Complete) : t.render.isSome := by
  induction h with
  | @node id n ts _ hops _ ih =>
    rw [labels_node, List.forall_mem_cons] at hcomplete
    rw [render, renderAll_eq]
    refine Node.renderWith_isSome hcomplete.1 (by simp [hops]) (List.forall_mem_map.mpr fun t ht => ?_)
    exact ih t ht fun m hm => hcomplete.2 m (List.mem_flatMap.mpr ⟨t, ht, hm⟩)

/-! ## The ledger -/

namespace Ledger

variable {p : Program} {opts : VerifyOptions} {i count : Nat} {l : Ledger}

/-- Every violation that was found belongs to one of the first assignments, or to none. -/
def Located (l : Ledger) (count : Nat) : Prop := ∀ e ∈ l.found, ∀ i ∈ e.1, i < count

theorem Located.note (h : l.Located count) {i : Option Nat} (hi : ∀ j ∈ i, j < count)
    (vs : List Violation) : (l.note i vs).Located count := by
  intro e he
  rcases List.mem_append.mp he with he | he
  · exact h e he
  · obtain ⟨v, -, rfl⟩ := List.mem_map.mp he
    exact hi

theorem Located.note_at (h : l.Located count) (hi : i < count) (vs : List Violation) :
    (l.note i vs).Located count :=
  h.note (fun _ hj => Option.mem_some_iff.mp hj ▸ hi) vs

theorem Located.read (h : l.Located count) (hi : i < count) (n : Node) :
    (l.read p i n).Located count := by
  unfold Ledger.read
  split
  · exact h
  · dsimp only
    split
    · exact h
    · exact Located.note_at (l := { l with reads := n.name :: l.reads }) h hi _

/-- A node that may be shared, or that can be shown, can be reached. -/
theorem Located.reach (h : l.Located count) (hi : i < count) {id : NodeId}
    (hshow : opts.noSharing → (p.renderExpr id).isSome) :
    ∃ l', l.reach p opts i id = some l' ∧ l'.Located count := by
  unfold Ledger.reach
  split
  · exact ⟨l, rfl, h⟩
  · rename_i hshare
    split
    · obtain ⟨text, htext⟩ := Option.isSome_iff_exists.mp (hshow (by simpa using hshare))
      exact ⟨_, by rw [htext]; rfl, h.note_at hi _⟩
    · exact ⟨_, rfl, h⟩

/-- A place of an expression can be checked. -/
structure Checkable (p : Program) (opts : VerifyOptions) (pl : Slot × NodeId × Node) : Prop where
  shown : opts.noSharing → (p.renderExpr pl.2.1).isSome
  above : ∀ parent k, pl.1 = .operand parent k → (p.node? parent).isSome
  operands : (pl.2.2.operands.mapM p.node?).isSome

theorem Located.place (h : l.Located count) (hi : i < count) {pl : Slot × NodeId × Node}
    (hpl : Checkable p opts pl) : ∃ l', l.place p opts i pl = some l' ∧ l'.Located count := by
  obtain ⟨slot, id, n⟩ := pl
  obtain ⟨l₁, h₁, hl₁⟩ := h.reach hi hpl.shown
  obtain ⟨ops, hops⟩ := Option.isSome_iff_exists.mp hpl.operands
  have hkinds : (if opts.noKinds.contains n.kind then l₁.note i [.unexpectedKind n.kind]
      else l₁).Located count := by
    split
    · exact hl₁.note_at hi _
    · exact hl₁
  have hchecked : ∀ {l₂ : Ledger}, l₂.Located count →
      (if n.kind = .identifier then (l₂.note i (n.check (ops.map (·.shape)))).read p i n
        else l₂.note i (n.check (ops.map (·.shape)))).Located count := by
    intro l₂ hl₂
    split
    · exact (hl₂.note_at hi _).read hi n
    · exact hl₂.note_at hi _
  unfold Ledger.place
  cases slot with
  | root =>
    simp only [h₁, Option.bind_eq_bind, Option.bind_some, hops]
    exact ⟨_, rfl, hchecked hkinds⟩
  | operand parent k =>
    obtain ⟨above, habove⟩ := Option.isSome_iff_exists.mp (hpl.above parent k rfl)
    simp only [h₁, Option.bind_eq_bind, Option.bind_some, hops, habove, Option.map_some]
    by_cases hnested : opts.noNested.contains n.kind = true
    · rw [if_pos hnested]
      exact ⟨_, rfl, hchecked (hkinds.note_at hi _)⟩
    · rw [if_neg hnested]
      exact ⟨_, rfl, hchecked hkinds⟩

theorem Located.places (h : l.Located count) (hi : i < count) {pls : List (Slot × NodeId × Node)}
    (hpls : ∀ pl ∈ pls, Checkable p opts pl) :
    ∃ l', l.places p opts i pls = some l' ∧ l'.Located count := by
  induction pls generalizing l with
  | nil => exact ⟨l, rfl, h⟩
  | cons pl pls ih =>
    rw [List.forall_mem_cons] at hpls
    obtain ⟨l₁, h₁, hl₁⟩ := h.place hi hpls.1
    obtain ⟨l₂, h₂, hl₂⟩ := ih hl₁ hpls.2
    exact ⟨l₂, by rw [Ledger.places, h₁]; exact h₂, hl₂⟩

end Ledger

namespace Program

variable {p : Program} {opts : VerifyOptions}

/-- The numbers of nodes are in range, and the table has no cycles. -/
structure Stored (p : Program) : Prop where
  acyclic : p.Acyclic
  inRange : ∀ a ∈ p.assignments, a.dst < p.nodes.size ∧ a.expr < p.nodes.size

/-- The nodes of all expressions are complete. -/
def Complete (p : Program) : Prop :=
  ∀ a ∈ p.assignments, ∀ n ∈ (p.tree a.expr).labels, n.Complete

namespace Stored

variable {a : Assignment} (h : p.Stored)
include h

theorem exists_dst (ha : a ∈ p.assignments) : ∃ dst, p.dst? a = some dst :=
  ⟨_, Array.getElem?_eq_getElem (h.inRange a ha).1⟩

theorem tree (ha : a ∈ p.assignments) :
    (p.tree a.expr).StoredIn p.nodes ∧ (p.tree a.expr).root = a.expr := by
  obtain ⟨t, ht, hroot⟩ := h.acyclic.exists_storedIn (h.inRange a ha).2
  rw [← hroot, ht.tree_eq]
  exact ⟨ht, rfl⟩

theorem laid : p.Laid p.clauses := by
  refine ⟨?_, fun c hc => ?_, fun c hc => ?_⟩
  · rw [clauses, List.map_map]
    refine (List.map_id _).symm.trans (List.map_congr_left fun a ha => ?_)
    simp [Clause.assignment, clause, (h.tree ha).2]
  · obtain ⟨a, ha, rfl⟩ := List.mem_map.mp hc
    obtain ⟨dst, hdst⟩ := h.exists_dst ha
    rw [clause, hdst]
    exact hdst
  · obtain ⟨a, ha, rfl⟩ := List.mem_map.mp hc
    exact (h.tree ha).1

/-- The expressions of complete nodes can be shown. -/
theorem renderExpr_isSome (hcomplete : p.Complete) (ha : a ∈ p.assignments) :
    (p.renderExpr a.expr).isSome :=
  (h.tree ha).1.render_isSome (hcomplete a ha)

/-- An identifier that is a destination can be shown. -/
theorem renderExpr_dst (ha : a ∈ p.assignments) {dst : Node} (hdst : p.dst? a = some dst)
    (hkind : dst.kind = .identifier) : (p.renderExpr a.dst).isSome := by
  obtain ⟨t, ht, hroot⟩ := h.acyclic.exists_storedIn (h.inRange a ha).1
  obtain ⟨n, ts, htree, hn⟩ := ht.exists_node
  rw [← hroot, renderExpr, ht.tree_eq, htree, Tree.render]
  cases (show p.node? a.dst = some n from hroot ▸ hn).symm.trans hdst
  rw [Node.renderWith, hkind]
  rfl

theorem checkable (hcomplete : opts.noSharing → p.Complete) (ha : a ∈ p.assignments) :
    ∀ pl ∈ (p.tree a.expr).places .root, Ledger.Checkable p opts pl := by
  have hoperands : ∀ {id : NodeId} {n : Node} {ts : List Tree}, (Tree.node id n ts).StoredIn p.nodes ∧
      (Tree.node id n ts).labels ⊆ (p.tree a.expr).labels → ∀ t ∈ ts, t.StoredIn p.nodes ∧
        t.labels ⊆ (p.tree a.expr).labels := by
    rintro id n ts ⟨hstored, hlabels⟩ t ht
    rw [Tree.labels_node, List.cons_subset] at hlabels
    exact ⟨hstored.operand ht, fun m hm => hlabels.2 (List.mem_flatMap.mpr ⟨t, ht, hm⟩)⟩
  intro pl hpl
  obtain ⟨⟨ts, hts, hlabels⟩, hslot⟩ := Tree.places_spec
    (P := fun t => t.StoredIn p.nodes ∧ t.labels ⊆ (p.tree a.expr).labels) hoperands
      ⟨(h.tree ha).1, fun _ hn => hn⟩ pl hpl
  refine ⟨fun hshare => ?_, fun parent k hparent => ?_, ?_⟩
  · rw [renderExpr, show p.tree pl.2.1 = _ from hts.tree_eq]
    exact hts.render_isSome fun n hn => hcomplete hshare a ha n (hlabels hn)
  · rcases hslot with hslot | ⟨parent', k', above, us, hslot, habove, -⟩
    · cases hslot.symm.trans hparent
    · cases hslot.symm.trans hparent
      exact Option.isSome_iff_exists.mpr ⟨above, habove.node_eq⟩
  · obtain ⟨ops, hops, -⟩ := Tree.StoredIn.mapM_roots fun t ht => hts.operand ht
    rw [hts.operands_eq]
    exact Option.isSome_iff_exists.mpr ⟨ops, hops⟩

theorem assignment {l : Ledger} {count i : Nat} (hl : l.Located count) (hi : i < count)
    (hcomplete : opts.noSharing → p.Complete) (ha : a ∈ p.assignments) :
    ∃ l', l.assignment p opts i a = some l' ∧ l'.Located count := by
  obtain ⟨dst, hdst⟩ := h.exists_dst ha
  obtain ⟨hstored, hroot⟩ := h.tree ha
  obtain ⟨root, ts, htree, hn⟩ := hstored.exists_node
  have hnode : p.node? a.expr = some root := hroot ▸ hn
  unfold Ledger.assignment
  rw [hdst, Option.bind_eq_bind, Option.bind_some]
  by_cases hkind : dst.kind = .identifier
  · obtain ⟨l₁, h₁, hl₁⟩ := hl.reach hi fun _ => h.renderExpr_dst ha hdst hkind
    have hl₂ : (if dst.shape = root.shape then l₁.note i (p.checkIdent dst)
        else (l₁.note i (p.checkIdent dst)).note i [.destinationShape dst.shape root.shape]).Located
          count := by
      split
      · exact hl₁.note_at hi _
      · exact (hl₁.note_at hi _).note_at hi _
    obtain ⟨l₃, h₃, hl₃⟩ := hl₂.places hi (h.checkable hcomplete ha)
    rw [if_neg (not_not_intro hkind), h₁]
    simp only [Option.bind_eq_bind, Option.bind_some, hnode, Tree.walk, hstored.walkFrom_eq, h₃]
    split
    · exact ⟨_, rfl, hl₃⟩
    · rename_i s _
      refine ⟨_, rfl, ?_⟩
      split
      · refine Ledger.Located.note_at ?_ hi _
        split <;> exact hl₃
      · split <;> exact hl₃
  · rw [if_pos hkind]
    exact ⟨_, rfl, hl.note_at hi _⟩

theorem assignments {l : Ledger} {as : List Assignment} {i count : Nat} (hl : l.Located count)
    (hcount : i + as.length ≤ count) (hcomplete : opts.noSharing → p.Complete)
    (has : ∀ a ∈ as, a ∈ p.assignments) :
    ∃ l', l.assignments p opts i as = some l' ∧ l'.Located count := by
  induction as generalizing l i with
  | nil => exact ⟨l, rfl, hl⟩
  | cons a as ih =>
    rw [List.length_cons] at hcount
    rw [List.forall_mem_cons] at has
    obtain ⟨l₁, h₁, hl₁⟩ := h.assignment hl (show i < count by omega) hcomplete has.1
    obtain ⟨l₂, h₂, hl₂⟩ := ih hl₁ (show i + 1 + as.length ≤ count by omega) has.2
    exact ⟨l₂, by rw [Ledger.assignments, h₁]; exact h₂, hl₂⟩

/-- The checks can be made. They look at operands that are there only, and show a node only when it is
shared and must not be. -/
theorem violations_isSome (hcomplete : opts.noSharing → p.Complete) : ∃ found,
    p.violations opts = some found ∧ ∀ e ∈ found, ∀ i ∈ e.1, i < p.assignments.length := by
  have hstart : ({} : Ledger).Located p.assignments.length := by simp [Ledger.Located]
  obtain ⟨l, hl, hlocated⟩ := h.assignments (i := 0) hstart (by omega) hcomplete fun _ ha => ha
  have hdefined : p.assignments.mapM (fun a => (p.dst? a).map (·.name)) =
      some (p.assignments.map fun a => ((p.dst? a).getD {}).name) :=
    mapM_eq_some_map fun a ha => by
      obtain ⟨dst, hdst⟩ := h.exists_dst ha
      rw [hdst]
      rfl
  rw [violations, hl]
  simp only [Option.bind_eq_bind, Option.bind_some, hdefined]
  exact ⟨_, rfl, (hlocated.note (by simp) _).note (by simp) _⟩

/-- A violation has an entry when its assignment can be shown. -/
theorem violationDiagnostic_isSome_iff {e : Option Nat × Violation}
    (he : ∀ i ∈ e.1, i < p.assignments.length) : (p.violationDiagnostic e).isSome ↔
      ∀ i ∈ e.1, ∀ a ∈ p.assignments[i]?, (p.renderExpr a.expr).isSome := by
  obtain ⟨_ | i, v⟩ := e
  · simp [violationDiagnostic]
  · have hi := List.getElem?_eq_getElem (he i rfl)
    obtain ⟨dst, hdst⟩ := h.exists_dst (List.getElem_mem (he i rfl))
    simp only [violationDiagnostic, renderAssignment, hi, hdst, Option.bind_eq_bind, Option.bind_some,
      Option.mem_def, Option.some.injEq, forall_eq']
    cases p.renderExpr (p.assignments.get ⟨i, he i rfl⟩).expr <;> simp

/-- The checks give a result if every assignment in which something was found can be shown. -/
theorem verify_isSome_iff (hcomplete : opts.noSharing → p.Complete) : (p.verify opts).isSome ↔
    ∀ found, p.violations opts = some found → ∀ e ∈ found, ∀ i ∈ e.1, ∀ a ∈ p.assignments[i]?,
      (p.renderExpr a.expr).isSome := by
  obtain ⟨found, hfound, hlocated⟩ := h.violations_isSome hcomplete
  have hverify : (p.verify opts).isSome ↔ (found.mapM p.violationDiagnostic).isSome := by
    rw [verify, hfound]
    cases hall : found.mapM p.violationDiagnostic <;> simp [hall]
  rw [hverify, isSome_mapM_iff, hfound]
  simp only [Option.some.injEq, forall_eq']
  exact forall₂_congr fun e he => h.violationDiagnostic_isSome_iff (hlocated e he)

/-- When all nodes are complete, the checks give no error or one internal error, which has one entry
for each violation. -/
theorem verify_reports (hcomplete : p.Complete) (opts : VerifyOptions) :
    ∃ found, p.violations opts = some found ∧ (found = [] ∧ p.verify opts = some none ∨
      found ≠ [] ∧ ∃ d, p.verify opts =
          some (some (.internal (.context s!"program {p.name} is invalid" d))) ∧
        List.Forall₂ (fun e entry => p.violationDiagnostic e = some entry) found d.entries) := by
  obtain ⟨found, hfound, hlocated⟩ := h.violations_isSome fun _ => hcomplete
  refine ⟨found, hfound, ?_⟩
  obtain ⟨all, hall⟩ := Option.isSome_iff_exists.mp (isSome_mapM_iff.2 fun e he =>
    (h.violationDiagnostic_isSome_iff (hlocated e he)).mpr fun i _ a ha =>
      h.renderExpr_isSome hcomplete (List.mem_of_getElem? ha))
  have hverify : p.verify opts = some ((Diagnostic.combine all).map fun d =>
      .internal (.context s!"program {p.name} is invalid" d)) := by
    rw [verify, hfound, Option.bind_eq_bind, Option.bind_some, hall]
    rfl
  by_cases hempty : found = []
  · subst hempty
    cases hall
    exact .inl ⟨rfl, hverify⟩
  · have hentries := mapM_eq_some_iff.mp hall
    have hne : all ≠ [] := fun hnil => hempty (List.forall₂_nil_right_iff.mp (hnil ▸ hentries))
    obtain ⟨d, hd, hds⟩ := Diagnostic.exists_combine hne fun d hd => by
      obtain ⟨e, -, he⟩ := exists_of_mem_mapM hall hd
      exact entries_violationDiagnostic he
    exact .inr ⟨hempty, d, by rw [hverify, hd]; rfl, by rw [hds]; exact hentries⟩

end Stored

/-- `y = x + x`, when the sum has lost its operands -/
def shortSum : Program where
  name := "p"
  symbols := .ofList [⟨"x", [2], .input⟩, ⟨"y", [2], .output⟩]
  names := { taken := ["y", "x"] }
  nodes := #[{ kind := .identifier, name := "x", shape := [2] }, { kind := .add, shape := [2] },
    { kind := .identifier, name := "y", shape := [2] }]
  assignments := [{ dst := 2, expr := 1 }]

theorem shortSum_stored : shortSum.Stored where
  acyclic := ⟨id, fun id n hn op hop => by
    match id with
    | 0 | 1 | 2 => cases hn; revert op; decide
    | _ + 3 => cases hn⟩
  inRange := by decide

/-- The operands of the sum are counted, but the entry for this cannot be made. -/
theorem shortSum_unreported : shortSum.Stored ∧
    (shortSum.violations {}).map (List.map fun e => (e.1, e.2.message)) =
      some [(some 0, "add node has 0 operands but want 2")] ∧ (shortSum.verify {}).isSome = false :=
  ⟨shortSum_stored, by decide +kernel⟩

end Program

end LoopNest
