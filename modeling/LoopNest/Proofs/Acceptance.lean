import LoopNest.Proofs.Edit

/-!
# Accepted programs

The checks of `Program.verify`, read backwards. A node that breaks no rule has the shape that its
operands give (`Node.fits_of_check`), an identifier that breaks none is a part of a declared tensor
(`Node.views_of_checkIdent`), and the ledger only stays empty when the clauses of the program pass
all checks (`Ledger.assignments_inv`). So the assignments of an accepted program are clauses that
fit its symbols (`Program.Accepted.laid`, `Program.Accepted.fits`,
`Program.Accepted.clauses_verified`).
-/

namespace LoopNest

/-! ## Nodes -/

/-- A test that reports one violation when it fails. -/
theorem report_eq_nil_iff {P : Prop} [Decidable P] {v : Violation} :
    (if P then [] else [v]) = [] ↔ P := by
  split <;> simp_all

theorem Node.shape_of_checkShape {n : Node} {s : Shape} (h : n.checkShape s = []) : n.shape = s :=
  report_eq_nil_iff.1 h

/-- When no pair of contracted axes is found to be wrong, all are axes of equal lengths. -/
theorem exists_extents_of_checkContracted {x y : Shape} {ls rs : List Int} {stop : Bool}
    (hlen : ls.length = rs.length) (h : checkContracted x y ls rs = ([], stop)) :
    stop = false ∧ ∃ es, ls.mapM (at? x) = some es ∧ rs.mapM (at? y) = some es := by
  induction ls generalizing rs stop with
  | nil =>
    obtain rfl := List.length_eq_zero_iff.mp hlen.symm
    cases h
    exact ⟨rfl, [], rfl, rfl⟩
  | cons l ls ih =>
    cases rs with
    | nil => cases hlen
    | cons r rs =>
      cases hrest : checkContracted x y ls rs with
      | mk vs stop' =>
        rw [checkContracted, hrest] at h
        cases hx : at? x l with
        | none => simp [hx] at h
        | some dx =>
          cases hy : at? y r with
          | none => simp [hx, hy] at h
          | some dy =>
            rw [hx, hy] at h
            by_cases heq : dx = dy
            · obtain ⟨rfl, rfl⟩ : vs = [] ∧ stop' = stop := by simpa [heq] using h
              obtain ⟨hstop, es, hls, hrs⟩ := ih (Nat.succ.inj hlen) hrest
              exact ⟨hstop, dx :: es, by simp [hx, hls], by simp [hy, hrs, heq]⟩
            · simp [heq] at h

/-- A node that breaks no rule has as many operands as its kind asks for. -/
theorem Node.checkOperands_of_check {n : Node} {shapes : List Shape} (h : n.check shapes = []) :
    n.checkOperands shapes = [] ∧ ∀ k, n.kind.arity? = some k → shapes.length = k := by
  unfold check at h
  split at h
  · rename_i k hk
    split at h
    · rename_i hlen
      refine ⟨h, fun k' hk' => ?_⟩
      rw [hk] at hk'
      cases hk'
      exact hlen
    · cases h
  · rename_i hnone
    refine ⟨h, fun k hk => ?_⟩
    rw [hnone] at hk
    cases hk

/-- A node that breaks no rule has the shape that its operands give. -/
theorem Node.fits_of_check {S : Shapes} {n : Node} {shapes : List Shape} (h : n.check shapes = [])
    (hlen : n.operands.length = shapes.length)
    (hident : n.kind = .identifier → ∃ stored, S n.name = some stored ∧ n.Views stored) :
    n.Fits S shapes := by
  obtain ⟨hops, harity⟩ := checkOperands_of_check h
  have hpair : n.kind.arity? = some 2 → ∃ x y, shapes = [x, y] := fun hk =>
    List.length_eq_two.mp (harity 2 hk)
  cases hk : n.kind with
  | identifier =>
    obtain rfl := List.length_eq_zero_iff.mp (harity 0 (by rw [hk]; rfl))
    obtain ⟨stored, hS, hviews⟩ := hident hk
    exact .identifier hk hS hviews
  | constant =>
    obtain rfl := List.length_eq_zero_iff.mp (harity 0 (by rw [hk]; rfl))
    simp only [checkOperands, hk] at hops
    exact .constant hk (shape_of_checkShape hops)
  | add | sub | mul | div =>
    obtain ⟨x, y, rfl⟩ := hpair (by rw [hk]; rfl)
    simp only [checkOperands, hk] at hops
    obtain ⟨hxy, hshape⟩ := List.append_eq_nil_iff.mp hops
    rw [← report_eq_nil_iff.1 hxy, ← shape_of_checkShape hshape]
    exact .elementwise (by rw [hk]; rfl)
  | scalarMul =>
    obtain ⟨s, t, rfl⟩ := hpair (by rw [hk]; rfl)
    simp only [checkOperands, hk] at hops
    obtain ⟨hs, hshape⟩ := List.append_eq_nil_iff.mp hops
    rw [List.length_eq_zero_iff.mp (report_eq_nil_iff.1 hs), ← shape_of_checkShape hshape]
    exact .scalarMul hk
  | scalarDiv =>
    obtain ⟨t, s, rfl⟩ := hpair (by rw [hk]; rfl)
    simp only [checkOperands, hk] at hops
    obtain ⟨hs, hshape⟩ := List.append_eq_nil_iff.mp hops
    rw [List.length_eq_zero_iff.mp (report_eq_nil_iff.1 hs), ← shape_of_checkShape hshape]
    exact .scalarDiv hk
  | product =>
    obtain ⟨x, y, rfl⟩ := hpair (by rw [hk]; rfl)
    simp only [checkOperands, hk] at hops
    exact .product hk (shape_of_checkShape hops)
  | contraction =>
    obtain ⟨x, y, rfl⟩ := hpair (by rw [hk]; rfl)
    cases haxes : checkContracted x y n.lhsAxes n.rhsAxes with
    | mk vs stop =>
      simp only [checkOperands, hk, haxes] at hops
      split at hops
      · cases hops
      · rename_i hcount
        have hvs : vs = [] := by
          cases stop with
          | true => exact hops
          | false => exact (List.append_eq_nil_iff.mp hops).1
        subst hvs
        obtain ⟨rfl, es, hx, hy⟩ :=
          exists_extents_of_checkContracted (Decidable.not_not.mp hcount) haxes
        exact .contraction hk hx hy (shape_of_checkShape hops)
  | stack =>
    cases shapes with
    | nil => simp [checkOperands, hk] at hops
    | cons s ops =>
      simp only [checkOperands, hk] at hops
      obtain ⟨hmembers, hshape⟩ := List.append_eq_nil_iff.mp hops
      rw [List.map_eq_nil_iff, List.filter_eq_nil_iff] at hmembers
      exact .stack hk hlen (shape_of_checkShape hshape) fun o ho => by simpa using hmembers o ho
  | transposition =>
    obtain ⟨x, rfl⟩ := List.length_eq_one_iff.mp (harity 1 (by rw [hk]; rfl))
    simp only [checkOperands, hk] at hops
    split at hops
    · cases hops
    · rename_i hnone
      obtain ⟨s, hs⟩ := exists_forward (firstOutside?_eq_none_iff.mp hnone)
      rw [Shape.permute, hs, Option.getD_some] at hops
      rw [← shape_of_checkShape hops] at hs
      exact .transposition hk hs
  | invalid | unknown => simp [checkOperands, hk] at hops

/-- The fixed indices lie in the extents that they select from. -/
theorem Node.inRange_of_checkFixed {n : Node} {lead rest : List Int} (h : n.checkFixed (lead ++ rest) = [])
    (hlen : lead.length = n.fixed.length) : InRange lead n.fixed := by
  rw [checkFixed, List.filterMap_eq_nil_iff] at h
  rw [inRange_iff_forall₂]
  refine List.Forall₂.flip (List.forall₂_iff_zip.mpr ⟨hlen.symm, fun {i d} hmem => ?_⟩)
  have hpair : (i, d) ∈ n.fixed.zip (lead ++ rest) := by
    rw [← List.append_nil n.fixed, List.zip_append hlen.symm]
    exact List.mem_append_left _ hmem
  have := h (i, d) hpair
  simp only [ite_eq_right_iff, reduceCtorEq, imp_false, not_or, Int.not_lt, Int.not_le] at this
  exact this

/-- An identifier that breaks no rule is a part of a declared tensor. -/
theorem Node.views_of_checkIdent {p : Program} {n : Node} (h : p.checkIdent n = []) :
    ∃ s, p.find n.name = some s ∧ n.Views s.shape := by
  unfold Program.checkIdent Program.storedShape? at h
  cases hs : p.symbols.find? n.name with
  | none =>
    rw [hs] at h
    cases h
  | some s =>
    refine ⟨s, hs, ?_⟩
    simp only [hs, Option.map_some] at h
    split at h
    · cases h
    · rename_i hrank
      split at h
      · cases h
      · rename_i hnone
        obtain ⟨l, hl⟩ := exists_forward (firstOutside?_eq_none_iff.mp hnone)
        rw [hl, Option.getD_some, List.append_eq_nil_iff] at h
        have hview : l.drop n.fixed.length = n.shape := report_eq_nil_iff.1 h.2
        have hlen : (l.take n.fixed.length).length = n.fixed.length := by
          have := length_forward hl
          simp only [Shape.rank, ne_eq, Decidable.not_not] at hrank
          rw [List.length_take]
          omega
        have hsplit := List.take_append_drop n.fixed.length l
        have hfixed : n.checkFixed (l.take n.fixed.length ++ l.drop n.fixed.length) = [] := by
          rw [hsplit]
          exact h.1
        exact ⟨l.take n.fixed.length, by rw [hl, ← hview, hsplit], inRange_of_checkFixed hfixed hlen⟩

/-! ## Trees -/

/-- A tree that can be walked has no missing node, so it is what the table holds. -/
theorem Program.unfold_storedIn {p : Program} {fuel : Nat} {id : NodeId} {slot : Slot}
    {pls : List (Slot × NodeId × Node)} (h : (p.unfold fuel id).walkFrom slot = some pls) :
    (p.unfold fuel id).StoredIn p.nodes ∧ (p.unfold fuel id).root = id := by
  induction fuel generalizing id slot pls with
  | zero => cases h
  | succ fuel ih =>
    rw [unfold] at h ⊢
    cases hn : p.node? id with
    | none => simp [hn, Tree.walkFrom] at h
    | some n =>
      simp only [hn] at h ⊢
      have hwalks : ∀ (ts : List Tree) (k : Nat) pls, Tree.walkOperands id k ts = some pls →
          ∀ t ∈ ts, ∃ slot pls, t.walkFrom slot = some pls := by
        intro ts
        induction ts with
        | nil => simp
        | cons t ts ihts =>
          intro k pls hpls
          simp only [Tree.walkOperands, Option.bind_eq_bind, Option.bind_eq_some_iff] at hpls
          obtain ⟨first, hfirst, rest, hrest, -⟩ := hpls
          rw [List.forall_mem_cons]
          exact ⟨⟨_, first, hfirst⟩, ihts (k + 1) rest hrest⟩
      rw [Tree.walkFrom, Option.bind_eq_bind, Option.bind_eq_some_iff] at h
      obtain ⟨rest, hrest, -⟩ := h
      have hops : ∀ op ∈ n.operands, (p.unfold fuel op).StoredIn p.nodes ∧
          (p.unfold fuel op).root = op := by
        intro op hop
        obtain ⟨slot, pls, hpls⟩ := hwalks _ 0 rest hrest _ (List.mem_map_of_mem hop)
        exact ih hpls
      refine ⟨.node hn ?_ fun t ht => ?_, rfl⟩
      · rw [List.map_map]
        exact (List.map_id _).symm.trans (List.map_congr_left fun op hop => (hops op hop).2.symm)
      · obtain ⟨op, hop, rfl⟩ := List.mem_map.mp ht
        exact (hops op hop).1

/-- A stored tree is well-shaped when none of its nodes breaks a rule. -/
theorem Tree.StoredIn.typed {p : Program} {S : Shapes} {t : Tree} (h : t.StoredIn p.nodes)
    (hcheck : ∀ n ∈ t.labels, ∃ ops, n.operands.mapM p.node? = some ops ∧
      n.check (ops.map (·.shape)) = [])
    (hident : ∀ n ∈ t.labels, n.kind = .identifier →
      ∃ stored, S n.name = some stored ∧ n.Views stored) : t.Typed (fun _ => True) S := by
  induction h with
  | @node id n ts hn hops hts ih =>
    have hbelow : ∀ t ∈ ts, ∀ m ∈ t.labels, m ∈ (Tree.node id n ts).labels := fun t ht m hm => by
      rw [labels_node]
      exact List.mem_cons_of_mem _ (List.mem_flatMap.mpr ⟨t, ht, hm⟩)
    obtain ⟨ops, hmapM, hshapes⟩ := StoredIn.mapM_roots hts
    obtain ⟨ops', hmapM', hn'⟩ := hcheck n (by simp)
    have heq : ops' = ops := by
      rw [hops] at hmapM'
      exact Option.some.inj (hmapM'.symm.trans hmapM)
    rw [heq, hshapes] at hn'
    exact .node trivial (Node.fits_of_check hn' (by simp [hops]) (hident n (by simp)))
      fun t ht => ih t ht (fun m hm => hcheck m (hbelow t ht m hm))
        fun m hm => hident m (hbelow t ht m hm)

/-! ## The ledger -/

section
variable {p : Program} {i : Nat} {l l' : Ledger}

@[simp] theorem Ledger.note_found {i : Option Nat} {vs : List Violation} :
    (l.note i vs).found = [] ↔ l.found = [] ∧ vs = [] := by
  simp [note]

/-- A step of the checks that found nothing comes after steps that found nothing. It leaves the
writes and the definitions as they are. -/
structure Ledger.Passes (l l' : Ledger) : Prop where
  found : l.found = []
  written : l'.written = l.written
  defs : l'.defs = l.defs

theorem Ledger.Passes.trans {l₁ l₂ l₃ : Ledger} (h : l₁.Passes l₂) (h' : l₂.Passes l₃) : l₁.Passes l₃ :=
  ⟨h.found, h'.written.trans h.written, h'.defs.trans h.defs⟩

theorem Ledger.read_inv {n : Node} (h : (l.read p i n).found = []) :
    l.Passes (l.read p i n) ∧
      ∀ s, p.find n.name = some s → s.role.isInput ∨ n.name ∈ l.written := by
  unfold read at h ⊢
  cases hs : p.symbols.find? n.name with
  | none =>
    simp only [hs] at h ⊢
    exact ⟨⟨h, rfl, rfl⟩, nofun⟩
  | some s =>
    simp only [hs] at h ⊢
    split at h
    · rename_i hread
      rw [if_pos hread]
      refine ⟨⟨h, rfl, rfl⟩, fun s' hs' => ?_⟩
      cases hs'
      simpa using hread
    · simp at h

/-- What is asked of a node of an accepted expression. -/
structure NodePasses (p : Program) (written : List String) (n : Node) : Prop where
  operands : ∃ ops, n.operands.mapM p.node? = some ops ∧ n.check (ops.map (·.shape)) = []
  read : n.kind = .identifier → ∀ s, p.find n.name = some s → s.role.isInput ∨ n.name ∈ written

theorem Ledger.place_inv {pl : Slot × NodeId × Node} (h : l.place p {} i pl = some l')
    (hfound : l'.found = []) : l.Passes l' ∧ NodePasses p l.written pl.2.2 := by
  obtain ⟨slot, id, n⟩ := pl
  have hplace : ((n.operands.mapM p.node?).bind fun ops =>
      some (if n.kind = .identifier then (l.note i (n.check (ops.map (·.shape)))).read p i n
        else l.note i (n.check (ops.map (·.shape))))) = some l' := by
    unfold place reach at h
    cases slot <;> simpa using h
  obtain ⟨ops, hops, hl⟩ := Option.bind_eq_some_iff.mp hplace
  cases hl
  by_cases hk : n.kind = .identifier
  · rw [if_pos hk] at hfound ⊢
    obtain ⟨hpass, hread⟩ := read_inv hfound
    obtain ⟨hl, hcheck⟩ := note_found.1 hpass.found
    exact ⟨⟨hl, hpass.written, hpass.defs⟩, ⟨ops, hops, hcheck⟩, fun _ => hread⟩
  · rw [if_neg hk] at hfound ⊢
    obtain ⟨hl, hcheck⟩ := note_found.1 hfound
    exact ⟨⟨hl, rfl, rfl⟩, ⟨ops, hops, hcheck⟩, fun h => absurd h hk⟩

theorem Ledger.places_inv {pls : List (Slot × NodeId × Node)} (h : l.places p {} i pls = some l')
    (hfound : l'.found = []) : l.Passes l' ∧ ∀ pl ∈ pls, NodePasses p l.written pl.2.2 := by
  induction pls generalizing l with
  | nil =>
    cases h
    exact ⟨⟨hfound, rfl, rfl⟩, by simp⟩
  | cons pl pls ih =>
    rw [places, Option.bind_eq_bind, Option.bind_eq_some_iff] at h
    obtain ⟨l₁, h₁, h₂⟩ := h
    obtain ⟨hpass₂, hrest⟩ := ih h₂
    obtain ⟨hpass₁, hfirst⟩ := place_inv h₁ hpass₂.found
    refine ⟨hpass₁.trans hpass₂, List.forall_mem_cons.mpr ⟨hfirst, ?_⟩⟩
    rwa [hpass₁.written] at hrest

/-- The clause of an assignment. -/
def Program.clause (p : Program) (a : Assignment) : Clause :=
  { dst := a.dst, target := (p.dst? a).getD {}, tree := p.tree a.expr, fuseAxis := a.fuseAxis }

/-- What is asked of an assignment when the given tensors were written before. -/
structure AssignmentPasses (p : Program) (written : List String) (a : Assignment) : Prop where
  target : p.dst? a = some (p.clause a).target
  kind : (p.clause a).target.kind = .identifier
  ident : p.checkIdent (p.clause a).target = []
  shape : (p.tree a.expr).shape = (p.clause a).target.shape
  role : ∀ s, p.find (p.clause a).name = some s → s.role ≠ .input
  stored : (p.tree a.expr).StoredIn p.nodes
  root : (p.tree a.expr).root = a.expr
  nodes : ∀ n ∈ (p.tree a.expr).labels, NodePasses p written n

/-- The ledger when the destination of an assignment was checked against its root. -/
def Ledger.enter (l : Ledger) (p : Program) (i : Nat) (dst root : Node) : Ledger :=
  let l := l.note i (p.checkIdent dst)
  if dst.shape = root.shape then l else l.note i [.destinationShape dst.shape root.shape]

/-- The ledger when the destination of an assignment was noted as written. -/
def Ledger.leave (l : Ledger) (p : Program) (i : Nat) (dst : Node) : Ledger :=
  let l := { l with written := dst.name :: l.written }
  match p.symbols.find? dst.name with
  | none => l
  | some s =>
    let l := if s.role.isSynthesized then
        { l with defs := definitionText dst.name dst.fixed :: l.defs }
      else l
    if s.role = .input then l.note i [.writesInput dst.name] else l

theorem Ledger.assignment_eq {a : Assignment} {dst : Node} (hdst : p.dst? a = some dst)
    (hkind : dst.kind = .identifier) : l.assignment p {} i a = (p.node? a.expr).bind fun root =>
      (p.tree a.expr).walk.bind fun pls =>
        ((l.enter p i dst root).places p {} i pls).map fun l => l.leave p i dst := by
  have hreach : l.reach p {} i a.dst = some l := rfl
  rw [assignment, hdst, Option.bind_eq_bind, Option.bind_some, if_neg (not_not_intro hkind), hreach,
    Option.bind_eq_bind, Option.bind_some]
  refine Option.bind_congr fun root _ => Option.bind_congr fun pls _ => ?_
  rw [Option.map_eq_bind]
  refine Option.bind_congr fun l₁ _ => ?_
  rw [Function.comp_apply, leave]
  cases p.symbols.find? dst.name <;> rfl

theorem Ledger.enter_inv {dst root : Node} (h : (l.enter p i dst root).found = []) :
    l.Passes (l.enter p i dst root) ∧ p.checkIdent dst = [] ∧ dst.shape = root.shape := by
  unfold enter at h ⊢
  by_cases heq : dst.shape = root.shape
  · rw [if_pos heq] at h ⊢
    obtain ⟨hl, hcheck⟩ := note_found.1 h
    exact ⟨⟨hl, rfl, rfl⟩, hcheck, heq⟩
  · simp [heq] at h

theorem Ledger.leave_inv {a : Assignment} {dst : Node} (htarget : (p.clause a).target = dst)
    (h : (l.leave p i dst).found = []) :
    l.found = [] ∧ (∀ s, p.find (p.clause a).name = some s → s.role ≠ .input) ∧
      (l.leave p i dst).written = (p.clause a).name :: l.written ∧
      (l.leave p i dst).defs = (p.clause a).definition p.find ++ l.defs := by
  subst htarget
  unfold leave at h ⊢
  rw [Clause.definition, Clause.name]
  cases hs : p.find (p.clause a).target.name with
  | none =>
    simp only [show p.symbols.find? (p.clause a).target.name = none from hs] at h ⊢
    exact ⟨h, fun s hs' => absurd hs' (by simp), trivial, rfl⟩
  | some s =>
    simp only [show p.symbols.find? (p.clause a).target.name = some s from hs] at h ⊢
    by_cases hrole : s.role = .input
    · simp [hrole] at h
    · simp only [if_neg hrole] at h ⊢
      refine ⟨by split at h <;> exact h, fun s' hs' => ?_, by split <;> rfl, by split <;> rfl⟩
      cases hs'
      exact hrole

theorem Ledger.assignment_inv {a : Assignment} (h : l.assignment p {} i a = some l')
    (hfound : l'.found = []) : AssignmentPasses p l.written a ∧ l.found = [] ∧
      l'.written = (p.clause a).name :: l.written ∧
      l'.defs = (p.clause a).definition p.find ++ l.defs := by
  obtain ⟨dst, hdst⟩ : ∃ dst, p.dst? a = some dst := by
    rw [assignment, Option.bind_eq_bind, Option.bind_eq_some_iff] at h
    exact ⟨_, h.choose_spec.1⟩
  have htarget : (p.clause a).target = dst := by rw [Program.clause, hdst, Option.getD_some]
  have hkind : dst.kind = .identifier := by
    by_contra hkind
    rw [assignment, hdst, Option.bind_eq_bind, Option.bind_some, if_pos hkind] at h
    cases h
    simp at hfound
  simp only [assignment_eq hdst hkind, Option.bind_eq_some_iff, Option.map_eq_some_iff] at h
  obtain ⟨root, hroot, pls, hwalk, l₂, hplaces, rfl⟩ := h
  obtain ⟨hfound₂, hrole, hwritten, hdefs⟩ := leave_inv htarget hfound
  obtain ⟨hpass, hnodes⟩ := places_inv hplaces hfound₂
  obtain ⟨hstart, hident, heq⟩ := enter_inv hpass.found
  obtain ⟨hstored, hrootId⟩ := Program.unfold_storedIn hwalk
  have hshape : (p.tree a.expr).shape = root.shape := by
    obtain ⟨n, ts, htree, hn⟩ := Tree.StoredIn.exists_node hstored
    rw [hrootId] at hn
    rw [show p.tree a.expr = _ from htree, Tree.shape_node]
    exact congrArg Node.shape (Option.some.inj (hn.symm.trans hroot))
  refine ⟨⟨htarget ▸ hdst, htarget ▸ hkind, htarget ▸ hident, htarget ▸ hshape.trans heq.symm, hrole,
    hstored, hrootId, fun n hn => ?_⟩, hstart.found, ?_, ?_⟩
  · have hpls : pls = (p.tree a.expr).places .root :=
      Option.some.inj (hwalk.symm.trans (hstored.walkFrom_eq .root))
    rw [← (Tree.map_places .root (p.tree a.expr)).1, ← hpls] at hn
    obtain ⟨pl, hpl, rfl⟩ := List.mem_map.mp hn
    exact hstart.written ▸ hnodes pl hpl
  · rw [hwritten, hpass.written, hstart.written]
  · rw [hdefs, hpass.defs, hstart.defs]

/-- The assignments that the checks pass, with what was written before each of them. -/
theorem Ledger.assignments_inv {as : List Assignment} (h : l.assignments p {} i as = some l')
    (hfound : l'.found = []) : l.found = [] ∧
      (∀ a ∈ as, ∃ written, AssignmentPasses p written a) ∧
      WrittenFirst p.find l.written (as.map p.clause) ∧
      l'.defs = ((as.map p.clause).flatMap (Clause.definition p.find)).reverse ++ l.defs := by
  induction as generalizing i l with
  | nil =>
    cases h
    exact ⟨hfound, by simp, trivial, rfl⟩
  | cons a as ih =>
    rw [assignments, Option.bind_eq_bind, Option.bind_eq_some_iff] at h
    obtain ⟨l₁, h₁, h₂⟩ := h
    obtain ⟨hfound₁, hrest, hordered, hdefs⟩ := ih h₂
    obtain ⟨hpass, hl, hwritten₁, hdefs₁⟩ := assignment_inv h₁ hfound₁
    rw [hwritten₁] at hordered
    refine ⟨hl, List.forall_mem_cons.mpr ⟨⟨_, hpass⟩, hrest⟩, ⟨fun name hname s hs => ?_, hordered⟩, ?_⟩
    · obtain ⟨n, hn, hname⟩ := List.mem_filterMap.mp hname
      split at hname
      · rename_i hk
        cases hname
        exact (hpass.nodes n hn).read hk s hs
      · cases hname
    · rw [hdefs, hdefs₁, List.map_cons, List.flatMap_cons, List.reverse_append,
        Clause.reverse_definition, List.append_assoc]

end

/-- A ledger in which every definition is counted once. -/
theorem Ledger.nodup_of_checkDefs {l : Ledger} (h : l.checkDefs = []) : l.defs.Nodup := by
  rw [checkDefs, List.filterMap_eq_nil_iff] at h
  refine List.nodup_iff_count_le_one.mpr fun d => ?_
  by_cases hd : d ∈ l.defs
  · have := h d (List.mem_mergeSort.mpr (List.mem_eraseDups.mpr hd))
    simp only [ite_eq_left_iff, reduceCtorEq, imp_false, Decidable.not_not] at this
    exact Nat.le_of_eq this
  · rw [List.count_eq_zero.mpr hd]
    exact Nat.zero_le 1

theorem Ledger.defined_of_checkSynthesized {p : Program} {opts : VerifyOptions} {l : Ledger}
    {defined : List String} (h : l.checkSynthesized p opts defined = []) {s : Symbol}
    (hs : s ∈ p.symbols.all) (hsynth : s.role.isSynthesized) : s.name ∈ defined := by
  rw [checkSynthesized, List.flatMap_eq_nil_iff] at h
  have := (List.append_eq_nil_iff.mp (h s (List.mem_filter.mpr ⟨hs, hsynth⟩))).1
  simpa using report_eq_nil_iff.1 this

theorem Program.violations_of_verify {p : Program} {opts : VerifyOptions}
    (h : p.verify opts = some none) : p.violations opts = some [] := by
  rw [verify, Option.bind_eq_bind, Option.bind_eq_some_iff] at h
  obtain ⟨found, hfound, h⟩ := h
  rw [Option.bind_eq_bind, Option.bind_eq_some_iff] at h
  obtain ⟨all, hall, h⟩ := h
  rw [Option.pure_def, Option.some.injEq, Option.map_eq_none_iff] at h
  have hlen := length_mapM hall
  cases all with
  | nil =>
    obtain rfl := List.length_eq_zero_iff.mp hlen.symm
    exact hfound
  | cons d ds => cases ds <;> cases h

/-! ## Classes given by their extents -/

/-- The nodes of which every extent has a property, and so has the number of axes. -/
@[reducible] def NodeClass.extents (P : Int → Prop) (R : Nat → Prop) : NodeClass where
  Mem s := (∀ d ∈ s, P d) ∧ R s.length
  Fixes _ := True
  perm h hperm := ⟨fun d hd => h.1 d (hperm.mem_iff.mp hd), hperm.length_eq ▸ h.2⟩
  whole := trivial

/-- All nodes. -/
@[reducible] def NodeClass.all : NodeClass := .extents (fun _ => True) fun _ => True

/-- The extents of a node come from those of its operands and of the tensor that it reads. Only a
stack adds one, the number of its members. -/
theorem Node.Fits.forall_extents {P : Int → Prop} {S : Shapes} {n : Node} {shapes : List Shape}
    (h : n.Fits S shapes) (hnat : ∀ k : Nat, P k)
    (hS : ∀ name stored, S name = some stored → ∀ d ∈ stored, P d)
    (hops : ∀ s ∈ shapes, ∀ d ∈ s, P d) : ∀ d ∈ n.shape, P d := by
  intro d hd
  cases h with
  | identifier _ hstored hviews => exact hS _ _ hstored d (hviews.mem_stored hd)
  | constant _ hshape => simp [hshape] at hd
  | elementwise | scalarMul | scalarDiv => exact hops n.shape (by simp) d hd
  | @product x y _ hshape =>
    rw [hshape, List.mem_append] at hd
    exact hd.elim (hops x (by simp) d) (hops y (by simp) d)
  | @contraction x y _ _ _ _ hshape =>
    rw [hshape, List.mem_append] at hd
    exact hd.elim (fun hd => hops x (by simp) d ((Shape.remove_sublist _ x).mem hd))
      fun hd => hops y (by simp) d ((Shape.remove_sublist _ y).mem hd)
  | @stack s ops _ _ hshape _ =>
    rw [hshape, List.mem_cons] at hd
    rcases hd with rfl | hd
    · exact hnat _
    · exact hops s (by simp) d hd
  | @transposition x _ hx => exact hops x (by simp) d ((perm_forward hx).mem_iff.mp hd)

theorem Tree.Typed.forall_extents {P : Int → Prop} {C : Node → Prop} {S : Shapes} {t : Tree}
    (h : t.Typed C S) (hnat : ∀ k : Nat, P k)
    (hS : ∀ name stored, S name = some stored → ∀ d ∈ stored, P d) :
    ∀ n ∈ t.labels, ∀ d ∈ n.shape, P d := by
  induction h with
  | @node id n ts _ hfits hts ih =>
    intro m hm
    rw [labels_node, List.mem_cons, List.mem_flatMap] at hm
    rcases hm with rfl | ⟨t, ht, hm⟩
    · refine hfits.forall_extents hnat hS fun s hs => ?_
      obtain ⟨t, ht, rfl⟩ := List.mem_map.mp hs
      cases hts t ht with
      | @node _ k us _ _ _ => exact ih _ ht k (by simp)
    · exact ih t ht m hm

/-! ## Accepted programs -/

namespace Program

/-- A program that passes the checks, in which the identifiers that are read pass those that are made
of destinations. -/
structure Accepted (p : Program) : Prop where
  verified : p.verify {} = some none
  reads : ∀ a ∈ p.assignments, ∀ n ∈ (p.tree a.expr).labels, n.kind = .identifier →
    p.checkIdent n = []

/-- No node is reached twice. -/
def Unshared (p : Program) : Prop :=
  (p.assignments.flatMap fun a => a.dst :: (p.tree a.expr).ids).Nodup

instance {p : Program} : Decidable p.Unshared := inferInstanceAs (Decidable (List.Nodup _))

/-- An assignment writes a tensor. -/
def Writes (p : Program) (a : Assignment) (name : String) : Prop :=
  ∃ dst, p.dst? a = some dst ∧ dst.name = name

/-- The assignments with their destinations and their trees. -/
def clauses (p : Program) : List Clause := p.assignments.map p.clause

variable {p : Program}

theorem Laid.forall_assignments {cs : List Clause} (h : p.Laid cs) {P : Assignment → Prop}
    (hcs : ∀ c ∈ cs, P c.assignment) : ∀ a ∈ p.assignments, P a := by
  rw [h.assignments]
  exact List.forall_mem_map.mpr hcs

theorem Laid.forall_trees {cs : List Clause} (h : p.Laid cs) {P : Tree → Prop}
    (hcs : ∀ c ∈ cs, P c.tree) : ∀ a ∈ p.assignments, P (p.tree a.expr) :=
  h.forall_assignments fun c hc => (h.tree_eq hc).symm ▸ hcs c hc

theorem Laid.writes_iff {cs : List Clause} (h : p.Laid cs) {c : Clause} (hc : c ∈ cs) {name : String} :
    p.Writes c.assignment name ↔ c.name = name := by
  simp [Writes, h.dst?_eq hc]

theorem Laid.unshared {cs : List Clause} (h : p.Laid cs) (hcs : LoopNest.Unshared cs) : p.Unshared := by
  have hids : (cs.map fun c => c.dst :: (p.tree c.tree.root).ids) = cs.map Clause.ids :=
    List.map_congr_left fun c hc => by rw [h.tree_eq hc, Clause.ids]
  rw [Unshared, h.assignments, List.flatMap_map, List.flatMap_def]
  exact (congrArg List.flatten hids) ▸ hcs

namespace Accepted

theorem passes (h : p.Accepted) : (∀ a ∈ p.assignments, ∃ written, AssignmentPasses p written a) ∧
    WrittenFirst p.find [] p.clauses ∧ (p.clauses.flatMap (Clause.definition p.find)).Nodup ∧
    ∀ s ∈ p.symbols.all, s.role.isSynthesized → ∃ c ∈ p.clauses, c.name = s.name := by
  have hviol := violations_of_verify h.verified
  rw [violations, Option.bind_eq_bind, Option.bind_eq_some_iff] at hviol
  obtain ⟨l, hl, hviol⟩ := hviol
  rw [Option.bind_eq_bind, Option.bind_eq_some_iff] at hviol
  obtain ⟨defined, hdefined, hviol⟩ := hviol
  rw [Option.pure_def, Option.some.injEq, Ledger.note_found] at hviol
  obtain ⟨hnoted, hsynth⟩ := hviol
  obtain ⟨hfound, hdefs⟩ := Ledger.note_found.1 hnoted
  obtain ⟨-, hpass, hordered, hdefs'⟩ := Ledger.assignments_inv hl hfound
  refine ⟨hpass, hordered, ?_, fun s hs hrole => ?_⟩
  · have hnd := Ledger.nodup_of_checkDefs hdefs
    rw [hdefs', List.nodup_append, List.nodup_reverse] at hnd
    exact hnd.1
  · have hmem := Ledger.defined_of_checkSynthesized hsynth hs hrole
    obtain ⟨a, ha, hname⟩ := exists_of_mem_mapM hdefined hmem
    refine ⟨p.clause a, List.mem_map_of_mem ha, ?_⟩
    obtain ⟨dst, hdst, hname⟩ := Option.map_eq_some_iff.mp hname
    rw [Clause.name, clause, hdst, ← hname]
    rfl

theorem laid (h : p.Accepted) : p.Laid p.clauses := by
  have hpass := h.passes.1
  refine ⟨?_, fun c hc => ?_, fun c hc => ?_⟩
  · rw [clauses, List.map_map]
    refine (List.map_id _).symm.trans (List.map_congr_left fun a ha => ?_)
    obtain ⟨_, ha⟩ := hpass a ha
    simp [Clause.assignment, clause, ha.root]
  · obtain ⟨a, ha, rfl⟩ := List.mem_map.mp hc
    exact (hpass a ha).choose_spec.target
  · obtain ⟨a, ha, rfl⟩ := List.mem_map.mp hc
    exact (hpass a ha).choose_spec.stored

theorem clauses_verified (h : p.Accepted) (htidy : p.Tidy) : Verified p.find p.clauses := by
  obtain ⟨-, hordered, hnd, hdefined⟩ := h.passes
  refine ⟨hordered, hnd, fun name s hs hsynth => ?_⟩
  have hname := htidy.name_eq hs
  obtain ⟨c, hc, heq⟩ := hdefined s (htidy.mem_all.mpr (hname.symm ▸ hs)) hsynth
  exact ⟨c, hc, heq.trans hname⟩

theorem typed (h : p.Accepted) : ∀ c ∈ p.clauses, c.tree.Typed (fun _ => True) p.find.shapes := by
  intro c hc
  obtain ⟨a, ha, rfl⟩ := List.mem_map.mp hc
  obtain ⟨_, hpass⟩ := h.passes.1 a ha
  refine Tree.StoredIn.typed hpass.stored (fun n hn => (hpass.nodes n hn).operands) fun n hn hk => ?_
  obtain ⟨s, hs, hviews⟩ := Node.views_of_checkIdent (h.reads a ha n hn hk)
  exact ⟨s.shape, Symbols.shapes_eq hs, hviews⟩

theorem fits (h : p.Accepted) {N : NodeClass} (hN : ∀ c ∈ p.clauses, ∀ n ∈ c.tree.labels, N.Admits n) :
    ∀ c ∈ p.clauses, c.Fits N p.find := by
  intro c hc
  have htyped := (h.typed c hc).of_labels (hN c hc)
  obtain ⟨a, ha, rfl⟩ := List.mem_map.mp hc
  obtain ⟨_, hpass⟩ := h.passes.1 a ha
  obtain ⟨s, hs, hviews⟩ := Node.views_of_checkIdent hpass.ident
  exact ⟨hpass.kind, ⟨s, hs, hviews, hpass.role s hs⟩, hpass.shape, htyped⟩

/-- Every node of an accepted program is in a class given by extents when the declared tensors are. -/
theorem admits (h : p.Accepted) {P : Int → Prop} {R : Nat → Prop} (hnat : ∀ k : Nat, P k)
    (hsymbols : ∀ name s, p.find name = some s → ∀ d ∈ s.shape, P d)
    (hrank : ∀ (id : NodeId) (n : Node), p.nodes[id]? = some n → R n.shape.length) :
    ∀ c ∈ p.clauses, ∀ n ∈ c.tree.labels, (NodeClass.extents P R).Admits n := by
  intro c hc n hn
  obtain ⟨id, hid⟩ := Tree.StoredIn.labels (h.laid.stored c hc) n hn
  refine ⟨⟨(h.typed c hc).forall_extents hnat (fun name stored hs => ?_) n hn, hrank id n hid⟩,
    fun _ => trivial⟩
  obtain ⟨s, hfind, rfl⟩ := Option.map_eq_some_iff.mp hs
  exact hsymbols name s hfind

theorem fits_all (h : p.Accepted) : ∀ c ∈ p.clauses, c.Fits .all p.find :=
  h.fits (h.admits (fun _ => trivial) (fun _ _ _ _ _ => trivial) fun _ _ _ => trivial)

theorem shows (h : p.Accepted) (hunshared : p.Unshared) (htidy : p.Tidy) {P : Int → Prop}
    {R : Nat → Prop} (hnat : ∀ k : Nat, P k)
    (hsymbols : ∀ name s, p.find name = some s → (∀ d ∈ s.shape, P d) ∧ R s.shape.length)
    (hnodes : ∀ (id : NodeId) (n : Node), p.nodes[id]? = some n → R n.shape.length) :
    p.Shows (.extents P R) p.clauses := by
  refine ⟨h.laid, ?_, htidy, hsymbols,
    h.fits (h.admits hnat (fun name s hs => (hsymbols name s hs).1) hnodes)⟩
  rwa [LoopNest.Unshared, clauses, List.flatMap_map]

theorem shows_all (h : p.Accepted) (hunshared : p.Unshared) (htidy : p.Tidy) :
    p.Shows .all p.clauses :=
  h.shows hunshared htidy (fun _ => trivial) (fun _ _ _ => ⟨fun _ _ => trivial, trivial⟩)
    fun _ _ _ => trivial

end Accepted

end Program

end LoopNest
