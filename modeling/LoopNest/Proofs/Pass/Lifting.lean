import LoopNest.Proofs.Pass.Hoisting
import LoopNest.Proofs.Pass.Unsharing
import LoopNest.Proofs.Verification

/-!
# Lifting

After `lift` the selected nodes only stand at the roots of assignments. Each step moves out the
first selected node below a root; the number of selected nodes below roots goes down in the
expression that is moved out as well as in what remains, so the fuel suffices. A tensor that is
added is defined once and read once (`Lifts`).
-/

namespace LoopNest

namespace Tree

/-- The nodes of a tree below its root. -/
def inner : Tree → List Node
  | .missing => []
  | .node _ _ ts => ts.flatMap labels

theorem labels_eq_cons {t : Tree} {id : NodeId} {n : Node} {ts : List Tree}
    (h : t = .node id n ts) : t.labels = n :: t.inner := by
  subst h
  rw [labels_node]
  rfl

theorem inner_subset {t : Tree} : ∀ n ∈ t.inner, n ∈ t.labels := by
  cases t with
  | missing => simp [inner]
  | node id n ts =>
    intro m hm
    rw [labels_node]
    exact List.mem_cons_of_mem _ hm

theorem length_labels (t : Tree) : t.labels.length = t.ids.length := by
  rw [← (map_places .root t).1, ← (map_places .root t).2, List.length_map, List.length_map]

theorem Rewrites.inner {Q : Node → Prop} {x s t t' : Tree} {parent : NodeId} {k : Nat}
    (h : Rewrites Q x s (.operand parent k) t t') :
    ∃ A A' B, t.inner = A ++ x.labels ++ B ∧ t'.inner = A' ++ s.labels ++ B ∧
      List.Forall₂ Node.Alike A A' := by
  generalize hslot : Slot.operand parent k = slot at h
  cases h with
  | root => cases hslot
  | @here id n l r _ =>
    refine ⟨l.flatMap Tree.labels, l.flatMap Tree.labels, r.flatMap Tree.labels,
      by simp [Tree.inner], by simp [Tree.inner], ?_⟩
    exact List.forall₂_same.mpr fun m _ => .refl m
  | @deeper id n l r u u' _ _ _ hrw =>
    obtain ⟨A, A', B, h₁, h₂, h₃⟩ := hrw.labels
    refine ⟨l.flatMap Tree.labels ++ A, l.flatMap Tree.labels ++ A', B ++ r.flatMap Tree.labels,
      by simp [Tree.inner, h₁], by simp [Tree.inner, h₂], ?_⟩
    exact List.rel_append (List.forall₂_same.mpr fun m _ => .refl m) h₃

end Tree

namespace Pass

variable {N : NodeClass} {p : Program} {pred : NodeKind → Bool}

/-- The number of selected nodes below the root. -/
def nested (pred : NodeKind → Bool) (t : Tree) : Nat := t.inner.countP fun n => pred n.kind

/-- Selected nodes only stand at the root. -/
def Rooted (pred : NodeKind → Bool) (t : Tree) : Prop := ∀ n ∈ t.inner, pred n.kind = false

theorem countP_alike {l l' : List Node} (h : List.Forall₂ Node.Alike l l') :
    l'.countP (fun n => pred n.kind) = l.countP fun n => pred n.kind := by
  induction h with
  | nil => rfl
  | cons h _ ih => simp [List.countP_cons, ih, h.kind]

/-- Moving out a selected node leaves fewer of them, inside it and around it. -/
theorem nested_lt {Q : Node → Prop} {x t t' : Tree} {parent : NodeId} {k : Nat} {read : NodeId}
    {name : String} {shape : Shape} (hpred : pred .identifier = false)
    (h : Tree.Rewrites Q x (wholeTree read name shape) (.operand parent k) t t')
    (hx : ∃ n ∈ x.label?, pred n.kind = true) :
    nested pred x < nested pred t ∧ nested pred t' < nested pred t := by
  obtain ⟨A, A', B, h₁, h₂, h₃⟩ := h.inner
  obtain ⟨n, hn, hsel⟩ := hx
  have hlabels : x.labels = n :: x.inner := by
    cases x with
    | missing => cases hn
    | node id m ts =>
      cases hn
      exact Tree.labels_eq_cons rfl
  have hleaf : (wholeTree read name shape).labels = [whole name shape] := by
    simp [wholeTree]
  simp only [nested, h₁, h₂, hlabels, hleaf, List.countP_append, List.countP_cons, countP_alike h₃,
    hsel, whole, hpred, List.countP_nil, if_true, Bool.false_eq_true, if_false]
  omega

/-- Whether there is a selected node below the root, and where. -/
theorem findNested_cases {nodes : Array Node} {t : Tree} (ht : t.StoredIn nodes) :
    (findNested pred t = some none ∧ Rooted pred t) ∨
      ∃ parent k x t', findNested pred t = some (some (.operand parent k)) ∧
        (∃ n ∈ x.label?, pred n.kind = true) ∧
        Tree.Rewrites (fun _ => True) x x (.operand parent k) t t' := by
  obtain ⟨n, ts, heq, -⟩ := ht.exists_node
  rw [heq] at ht ⊢
  exact ht.find_cases (fun n => pred n.kind) (fun _ _ _ => by simp) (by simp) trivial
    fun _ _ => trivial

theorem Rooted.findNested_eq {nodes : Array Node} {t : Tree} (h : Rooted pred t) (ht : t.StoredIn nodes) :
    findNested pred t = some none := by
  rcases @findNested_cases pred _ _ ht with ⟨hf, -⟩ | ⟨parent, k, x, t', -, ⟨n, hn, hsel⟩, hrw⟩
  · exact hf
  · obtain ⟨A, A', B, hinner, -, -⟩ := hrw.inner
    have hmem := Tree.mem_labels_of_label? hn
    rw [h n (by rw [hinner]; simp [hmem])] at hsel
    cases hsel

/-- Moving a subexpression out makes no clause read its own destination. -/
theorem readsOthers_hoist {find : Symbols} {c : Clause} {x t' : Tree} {Q : Node → Prop} {slot : Slot}
    {read : NodeId} {name : String} (dst : NodeId) (hfits : c.Fits N find) (hnone : find name = none)
    (hrw : Tree.Rewrites Q x (wholeTree read name x.shape) slot c.tree t') :
    (computing dst name x).ReadsOthers ∧
      (c.ReadsOthers → Clause.ReadsOthers { c with tree := t' }) := by
  obtain ⟨A, B, hold, hnew⟩ := hrw.names
  constructor
  · intro hmem
    have hmem : name ∈ x.names := hmem
    have hname : name ∈ c.tree.names := by
      rw [hold]
      simp [hmem]
    obtain ⟨s, hs⟩ := hfits.declared_name hname
    rw [hnone] at hs
    cases hs
  · intro hothers hmem
    obtain ⟨s, hs, -⟩ := hfits.declared
    have hne : c.name ≠ name := by
      intro heq
      rw [heq, hnone] at hs
      cases hs
    rw [Clause.ReadsOthers, hold] at hothers
    simp only [List.mem_append, not_or] at hothers
    simp only [hnew, names_wholeTree, List.mem_append, List.mem_singleton] at hmem
    tauto

/-! ## The tensors that are added -/

/-- The tensors that a program has more than another one. Each of them has one more definition and
one more read; the names are new. -/
structure Lifts (p : Program) (cs : List Clause) (p' : Program) (cs' : List Clause)
    (added : List String) : Prop where
  defs : (cs'.map Clause.name).Perm (added ++ cs.map Clause.name)
  reads : (cs'.flatMap fun c => c.tree.names).Perm (added ++ cs.flatMap fun c => c.tree.names)
  nodup : added.Nodup
  new : ∀ name ∈ added, name ∉ p.names.taken
  taken : ∀ name ∈ added, name ∈ p'.names.taken
  symbols : ∀ name s, p'.find name = some s → p.find name = some s ∨ name ∈ added
  single : KeepsSingle p.find cs p'.find cs'

namespace Lifts

variable {p₁ p₂ : Program} {cs cs₁ cs₂ : List Clause} {added added' : List String}

theorem refl (p : Program) (cs : List Clause) : Lifts p cs p cs [] :=
  ⟨.refl _, .refl _, .nil, by simp, by simp, fun _ _ => .inl, .refl _ _⟩

theorem trans (h : Lifts p cs p₁ cs₁ added) (h' : Lifts p₁ cs₁ p₂ cs₂ added')
    (hsub : p.names.taken ⊆ p₁.names.taken) (hsub' : p₁.names.taken ⊆ p₂.names.taken) :
    Lifts p cs p₂ cs₂ (added' ++ added) := by
  refine ⟨?_, ?_, List.nodup_append.mpr ⟨h'.nodup, h.nodup, ?_⟩, fun name hname => ?_,
    fun name hname => ?_, fun name s hs => ?_, h.single.trans h'.single⟩
  · rw [List.append_assoc]
    exact h'.defs.trans (h.defs.append_left _)
  · rw [List.append_assoc]
    exact h'.reads.trans (h.reads.append_left _)
  · rintro name hname _ hmem rfl
    exact h'.new name hname (h.taken name hmem)
  · rcases List.mem_append.mp hname with hname | hname
    · exact fun hmem => h'.new name hname (hsub hmem)
    · exact h.new name hname
  · rcases List.mem_append.mp hname with hname | hname
    · exact h'.taken name hname
    · exact hsub' (h.taken name hname)
  · rcases h'.symbols name s hs with hs | hmem
    · exact (h.symbols name s hs).imp_right (List.mem_append_right _)
    · exact .inr (List.mem_append_left _ hmem)

/-- An added tensor is defined once and read once. -/
theorem count_eq (h : Lifts p cs p₁ cs₁ added) (htidy : p.Tidy) (hfits : ∀ c ∈ cs, c.Fits N p.find)
    {name : String} (hname : name ∈ added) :
    (cs₁.map Clause.name).count name = 1 ∧
      (cs₁.flatMap fun c => c.tree.names).count name = 1 := by
  have hone : added.count name = 1 := List.count_eq_one_of_mem h.nodup hname
  have hnone : ∀ s, p.find name ≠ some s := fun s hs => h.new name hname (htidy.mem_taken hs)
  have hdefs : (cs.map Clause.name).count name = 0 := by
    refine List.count_eq_zero.mpr fun hmem => ?_
    obtain ⟨c, hc, rfl⟩ := List.mem_map.mp hmem
    obtain ⟨s, hs, -⟩ := (hfits c hc).declared
    exact hnone s hs
  have hreads : (cs.flatMap fun c => c.tree.names).count name = 0 := by
    refine List.count_eq_zero.mpr fun hmem => ?_
    obtain ⟨c, hc, hmem⟩ := List.mem_flatMap.mp hmem
    obtain ⟨s, hs⟩ := (hfits c hc).declared_name hmem
    exact hnone s hs
  rw [h.defs.count_eq, h.reads.count_eq, List.count_append, List.count_append, hone, hdefs, hreads]
  exact ⟨rfl, rfl⟩

end Lifts

/-- Moving a subexpression out adds one tensor. -/
theorem lifts_hoist {Q : Node → Prop} {l r : List Clause} {c : Clause} {x t' : Tree} {slot : Slot}
    {name : String} {read : NodeId} {p' : Program} (dst : NodeId)
    (hrw : Tree.Rewrites Q x (wholeTree read name x.shape) slot c.tree t')
    (hnew : name ∉ p.names.taken) (htaken : name ∈ p'.names.taken)
    (hsymbols : ∀ m s, p'.find m = some s → p.find m = some s ∨ m = name)
    (hsingle : KeepsSingle p.find (l ++ ([c] ++ r)) p'.find
      (l ++ ([computing dst name x, { c with tree := t' }] ++ r))) :
    Lifts p (l ++ ([c] ++ r)) p' (l ++ ([computing dst name x, { c with tree := t' }] ++ r))
      [name] := by
  obtain ⟨A, B, hA, hB⟩ := hrw.names
  refine ⟨?_, ?_, List.nodup_singleton _, by simpa using hnew, by simpa using htaken,
    fun m s hs => by simpa using hsymbols m s hs, hsingle⟩
  · simp only [List.map_append, List.map_cons, List.map_nil, List.singleton_append]
    exact List.perm_middle
  · rw [List.perm_iff_count]
    intro m
    simp only [List.flatMap_append, List.flatMap_cons, List.flatMap_nil, hA, hB, names_wholeTree,
      List.count_append, List.count_nil]
    omega

/-- The selected nodes of one clause are moved out, one after the other. -/
theorem liftAt_spec (hpred : pred .identifier = false) {fuel : Nat} {l r : List Clause} {c : Clause}
    {p : Program} (h : p.Shows N (l ++ ([c] ++ r))) (hfuel : nested pred c.tree < fuel) :
    ∃ p' new c' added, liftAt pred fuel l.length p = .ok (l.length + new.length) p' ∧
      p'.Shows N (l ++ ((new ++ [c']) ++ r)) ∧
      Revises N p (l ++ ([c] ++ r)) p' (l ++ ((new ++ [c']) ++ r)) ∧
      Lifts p (l ++ ([c] ++ r)) p' (l ++ ((new ++ [c']) ++ r)) added ∧
      (∀ d ∈ new ++ [c'], Rooted pred d.tree) ∧
      (c.ReadsOthers → ∀ d ∈ new ++ [c'], d.ReadsOthers) := by
  induction fuel generalizing l r c p with
  | zero => omega
  | succ fuel ih =>
    have hc : c ∈ l ++ ([c] ++ r) := by simp
    have ha : p.assignments[l.length]? = some c.assignment := by simp [h.laid.assignments]
    have hquery : ∀ {b}, findNested pred c.tree = some b →
        findNested pred (p.tree c.assignment.expr) = some b := by
      intro b hb
      rw [show c.assignment.expr = c.tree.root from rfl, h.laid.tree_eq hc, hb]
    rcases findNested_cases (h.laid.stored c hc) with ⟨hf, hrooted⟩ | ⟨parent, k, x, t₀, hf, hx, hrw⟩
    · refine ⟨p, [], c, [], ?_, h, .refl _ _ _, .refl _ _, by simpa using hrooted, by simp⟩
      rw [liftAt, Edit.bind_ok (Edit.assignment_run ha), Edit.bind_ok (Edit.query_run (hquery hf))]
      rfl
    · obtain ⟨p₁, read, dst, name, t₁, hrun, hnew, hrw₁, hshows₁, hrev₁, hsingle₁, htaken₁,
        hsymbols₁⟩ := hoist_spec h hrw
      have hlifts₁ := lifts_hoist dst hrw₁ hnew htaken₁ hsymbols₁ hsingle₁
      have hnone : p.find name = none := by
        cases hs : p.find name with
        | none => rfl
        | some s => exact absurd (h.tidy.mem_taken hs) hnew
      obtain ⟨hlt, hlt'⟩ := nested_lt hpred hrw₁ hx
      obtain ⟨hothers, hothers'⟩ := readsOthers_hoist dst (h.fits c hc) hnone hrw₁
      -- first what was moved out, then what remains
      obtain ⟨p₂, new₁, d, added₂, hrun₂, hshows₂, hrev₂, hlifts₂, hrooted₂, hothers₂⟩ :=
        ih (c := computing dst name x) (r := { c with tree := t₁ } :: r) hshows₁
          (Nat.lt_of_lt_of_le hlt (Nat.le_of_lt_succ hfuel))
      have hassoc : l ++ ((new₁ ++ [d]) ++ ({ c with tree := t₁ } :: r)) =
          (l ++ (new₁ ++ [d])) ++ ([{ c with tree := t₁ }] ++ r) := by simp
      rw [hassoc] at hshows₂ hrev₂ hlifts₂
      obtain ⟨p₃, new₂, c', added₃, hrun₃, hshows₃, hrev₃, hlifts₃, hrooted₃, hothers₃⟩ :=
        ih hshows₂ (Nat.lt_of_lt_of_le hlt' (Nat.le_of_lt_succ hfuel))
      have hassoc' : (l ++ (new₁ ++ [d])) ++ ((new₂ ++ [c']) ++ r) =
          l ++ (((new₁ ++ [d] ++ new₂) ++ [c']) ++ r) := by simp
      rw [hassoc'] at hshows₃ hrev₃ hlifts₃
      have hrev₁₂ := hrev₁.trans hrev₂
      refine ⟨p₃, new₁ ++ [d] ++ new₂, c', _, ?_, hshows₃, hrev₁₂.trans hrev₃,
        (hlifts₁.trans hlifts₂ hrev₁.taken hrev₂.taken).trans hlifts₃ hrev₁₂.taken hrev₃.taken, ?_, ?_⟩
      · rw [liftAt, Edit.bind_ok (Edit.assignment_run ha), Edit.bind_ok (Edit.query_run (hquery hf))]
        refine (Edit.bind_ok hrun).trans ((Edit.bind_ok hrun₂).trans ?_)
        have hpos : l.length + new₁.length + 1 = (l ++ (new₁ ++ [d])).length := by simp; omega
        rw [hpos, hrun₃]
        simp only [List.length_append, List.length_singleton]
        congr 1
        omega
      · intro e he
        simp only [List.mem_append] at he hrooted₂ hrooted₃
        rcases he with (he | he) | he
        · exact hrooted₂ e he
        · exact hrooted₃ e (.inl he)
        · exact hrooted₃ e (.inr he)
      · intro hc e he
        rw [List.append_assoc, List.mem_append] at he
        exact he.elim (hothers₂ hothers e) (hothers₃ (hothers' hc) e)

theorem nested_le {cs : List Clause} (h : p.Shows N cs) {c : Clause} (hc : c ∈ cs) :
    nested pred c.tree < p.nodes.size + 1 := by
  have hnd : c.tree.ids.Nodup := by
    obtain ⟨l, r, rfl⟩ := List.append_of_mem hc
    exact (List.nodup_cons.mp (Unshared.nodup h.unshared)).2
  have hids : c.tree.ids.length ≤ p.nodes.size :=
    length_le_of_nodup_lt hnd (h.laid.stored c hc).lt_size
  obtain ⟨n, ts, heq, -⟩ := (h.laid.stored c hc).exists_node
  have hlen := c.tree.length_labels
  rw [Tree.labels_eq_cons heq, List.length_cons] at hlen
  have hcount : nested pred c.tree ≤ c.tree.inner.length := List.countP_le_length
  omega

theorem stillNested_eq {as : List Assignment}
    (h : ∀ a ∈ as, findNested pred (p.tree a.expr) = some none) (i : Nat) :
    stillNested p pred i as = some none := by
  induction as generalizing i with
  | nil => rfl
  | cons a as ih =>
    rw [stillNested, h a (.head _)]
    exact ih (fun b hb => h b (.tail _ hb)) (i + 1)

/-- The checks at the end of the pass find nothing when the selected nodes stand at roots. -/
theorem lifted_checks_run {cs : List Clause} (h : p.Shows N cs) (hv : Verified p.find cs)
    (hrooted : ∀ c ∈ cs, Rooted pred c.tree) :
    (Edit.verify { noSharing := true } >>= fun _ =>
      Edit.check fun p => stillNested p pred 0 p.assignments) p = .ok () p := by
  have hverify : p.verify { noSharing := true } = some none :=
    Program.verify_eq_none h.laid h.tidy h.fits hv nofun rfl (fun _ => h.unshared) (by simp)
  refine (Edit.bind_ok (Edit.verify_run hverify)).trans (Edit.check_run (stillNested_eq (fun a ha => ?_) 0))
  rw [h.laid.assignments] at ha
  obtain ⟨c, hc, rfl⟩ := List.mem_map.mp ha
  rw [show c.assignment.expr = c.tree.root from rfl, h.laid.tree_eq hc]
  exact (hrooted c hc).findNested_eq (h.laid.stored c hc)

theorem liftFrom_spec (hpred : pred .identifier = false) {rest before : List Clause} {p : Program}
    (h : p.Shows N (before ++ rest)) (hbefore : ∀ c ∈ before, Rooted pred c.tree) :
    ∃ p' cs added, liftFrom pred rest.length before.length p = .ok () p' ∧ p'.Shows N cs ∧
      Revises N p (before ++ rest) p' cs ∧ Lifts p (before ++ rest) p' cs added ∧
      (∀ c ∈ cs, Rooted pred c.tree) ∧
      ((∀ c ∈ before ++ rest, c.ReadsOthers) → ∀ c ∈ cs, c.ReadsOthers) := by
  induction rest generalizing before p with
  | nil =>
    rw [List.append_nil] at h ⊢
    exact ⟨p, before, [], rfl, h, .refl _ _ _, .refl _ _, hbefore, id⟩
  | cons c rest ih =>
    obtain ⟨p₁, new, c', added₁, hrun₁, hshows₁, hrev₁, hlifts₁, hrooted₁, hothers₁⟩ :=
      liftAt_spec (r := rest) hpred h (nested_le h (by simp))
    have hassoc : before ++ ((new ++ [c']) ++ rest) = (before ++ (new ++ [c'])) ++ rest := by simp
    rw [hassoc] at hshows₁ hrev₁ hlifts₁
    obtain ⟨p₂, cs, added₂, hrun₂, hshows₂, hrev₂, hlifts₂, hrooted₂, hothers₂⟩ := ih hshows₁ (by
      intro d hd
      rcases List.mem_append.mp hd with hd | hd
      · exact hbefore d hd
      · exact hrooted₁ d hd)
    refine ⟨p₂, cs, _, ?_, hshows₂, hrev₁.trans hrev₂, hlifts₁.trans hlifts₂ hrev₁.taken hrev₂.taken,
      hrooted₂, fun h => hothers₂ fun e he => ?_⟩
    · rw [List.length_cons, liftFrom, Edit.bind_ok (Edit.query_some_run _)]
      refine (Edit.bind_ok hrun₁).trans ?_
      rw [← hrun₂]
      simp [Nat.add_assoc]
    · rw [List.append_assoc, List.mem_append, List.mem_append] at he
      rcases he with he | he | he
      · exact h e (by simp [he])
      · exact hothers₁ (h c (by simp)) e he
      · exact h e (by simp [he])

/-! ## The pass -/

section
variable {cs cs' : List Clause}

theorem exists_copy (h : List.Forall₂ Clause.Copies cs cs') {c : Clause} (hc : c ∈ cs) :
    ∃ c' ∈ cs', Clause.Copies c c' := by
  obtain ⟨i, hi⟩ := List.mem_iff_getElem?.mp hc
  obtain ⟨c', hc', hcopy⟩ := forall₂_getElem? h hi
  exact ⟨c', List.mem_of_getElem? hc', hcopy⟩

theorem map_copies {β : Type _} (h : List.Forall₂ Clause.Copies cs cs') {f : Clause → β}
    (hf : ∀ c c', Clause.Copies c c' → f c' = f c) : cs'.map f = cs.map f := by
  induction h with
  | nil => rfl
  | cons hc _ ih => rw [List.map_cons, List.map_cons, ih, hf _ _ hc]

/-- Copies of well-shaped clauses are well-shaped. -/
theorem fits_copies {find : Symbols} {nodes : Array Node} (h : ∀ c ∈ cs, c.Fits N find)
    (hcopies : List.Forall₂ Clause.Copies cs cs') (hstored : ∀ c ∈ cs', c.tree.StoredIn nodes) :
    ∀ c ∈ cs', c.Fits N find := by
  intro c' hc'
  obtain ⟨c, hc, hcopy⟩ := exists_of_forall₂ hcopies hc'
  have hfits := h c hc
  refine ⟨hcopy.target.kind ▸ hfits.kind, ?_, ?_, ?_⟩
  · rw [hcopy.name]
    obtain ⟨s, hs, hviews, hrole⟩ := hfits.declared
    exact ⟨s, hs, by rw [hcopy.target]; exact hviews, hrole⟩
  · rw [Tree.shape_eq_of_strip hcopy.strip, ← hcopy.target.shape, hfits.shape]
  · exact hfits.typed.of_strip N.admits_operands hcopy.strip (hstored c' hc')

theorem covers_copies (hcopies : List.Forall₂ Clause.Copies cs cs') {name : String}
    {sub : List Int} (h : Covers (cs.map Clause.target) name sub) :
    Covers (cs'.map Clause.target) name sub := by
  obtain ⟨n, hn, rfl, hown⟩ := h
  obtain ⟨c, hc, rfl⟩ := List.mem_map.mp hn
  obtain ⟨c', hc', hcopy⟩ := exists_copy hcopies hc
  refine ⟨c'.target, List.mem_map_of_mem hc', hcopy.name, ?_⟩
  rw [hcopy.target]
  exact hown

theorem ordered_copies {find : Symbols} (hcopies : List.Forall₂ Clause.Copies cs cs')
    {written written' : List Node} (h : Ordered find written cs)
    (hsub : ∀ name sub, Covers written name sub → Covers written' name sub) :
    Ordered find written' cs' := by
  induction hcopies generalizing written written' with
  | nil => trivial
  | @cons c c' cs cs' hc _ ih =>
    refine ⟨?_, ih h.2 fun name sub hcov => ?_⟩
    · rw [Tree.names_eq_of_strip hc.strip]
      exact fun name hname s hs => (h.1 name hname s hs).imp_right fun hfill sub hin =>
        hsub name sub (hfill sub hin)
    · rw [covers_cons] at hcov ⊢
      refine hcov.imp (fun ⟨hname, hown⟩ => ⟨hc.name.trans hname, ?_⟩) (hsub name sub)
      rw [hc.target]
      exact hown

/-- Copies of sound clauses are sound. -/
theorem sound_copies {K : ShapeClass} {find : Symbols} {nodes : Array Node}
    (h : Sound K find cs) (hcopies : List.Forall₂ Clause.Copies cs cs')
    (hstored : ∀ c ∈ cs', c.tree.StoredIn nodes) : Sound K find cs' := by
  have hkeys : cs'.map (fun c => (c.name, c.target.fixed)) =
      cs.map (fun c => (c.name, c.target.fixed)) :=
    map_copies hcopies fun c c' hc => by rw [hc.name, hc.target]
  refine ⟨h.symbols, h.plain, fits_copies h.fits hcopies hstored, ?_, fun c' hc' s hs => ?_,
    fun name s hs hsynth => ?_, ?_⟩
  · exact ordered_copies hcopies h.ordered fun _ _ => id
  · obtain ⟨c, hc, hcopy⟩ := exists_of_forall₂ hcopies hc'
    intro sub hsub
    rw [hcopy.name] at hs ⊢
    exact covers_copies hcopies (h.filled c hc s hs sub hsub)
  · obtain ⟨c, hc, hname⟩ := h.defined name s hs hsynth
    obtain ⟨c', hc', hcopy⟩ := exists_copy hcopies hc
    exact ⟨c', hc', hcopy.name.trans hname⟩
  · have hapart : ∀ cs : List Clause, (cs.map Clause.target).Pairwise (Apart find) ↔
        (cs.map fun c => (c.name, c.target.fixed)).Pairwise fun a b =>
          Apart find { name := a.1, fixed := a.2 } { name := b.1, fixed := b.2 } := by
      intro cs
      rw [List.pairwise_map, List.pairwise_map]
      rfl
    rw [hapart, hkeys, ← hapart]
    exact h.apart

theorem writtenFirst_copies {find : Symbols} (hcopies : List.Forall₂ Clause.Copies cs cs')
    {written : List String} (h : WrittenFirst find written cs) : WrittenFirst find written cs' := by
  induction hcopies generalizing written with
  | nil => trivial
  | @cons c c' cs cs' hc _ ih =>
    refine ⟨?_, ?_⟩
    · rw [Tree.names_eq_of_strip hc.strip]
      exact h.1
    · rw [hc.name]
      exact ih h.2

theorem verified_copies {find : Symbols} (h : Verified find cs)
    (hcopies : List.Forall₂ Clause.Copies cs cs') : Verified find cs' := by
  refine ⟨writtenFirst_copies hcopies h.ordered, ?_, fun name s hs hsynth => ?_⟩
  · have heq : cs'.map (Clause.definition find) = cs.map (Clause.definition find) :=
      map_copies hcopies fun c c' hc =>
        Clause.definition_congr (by rw [hc.name]) hc.name (by rw [hc.target])
    rw [List.flatMap_def, heq, ← List.flatMap_def]
    exact h.definitions
  · obtain ⟨c, hc, hname⟩ := h.defined name s hs hsynth
    obtain ⟨c', hc', hcopy⟩ := exists_copy hcopies hc
    exact ⟨c', hc', hcopy.name.trans hname⟩

/-- Copies of clauses do the same. -/
theorem run_copies {α : Type} [Scalar α] (h : List.Forall₂ Clause.Copies cs cs') (σ : Cells α) :
    runClauses cs' σ = runClauses cs σ := by
  induction h generalizing σ with
  | nil => rfl
  | @cons c c' _ _ hc _ ih =>
    have hstep : c'.step σ = c.step σ := by
      funext name sub
      have hown : ∀ sub, c'.target.own? sub = c.target.own? sub := fun sub => by
        rw [hc.target]
        rfl
      unfold Clause.step
      rw [hc.name, hown, Tree.eval_eq_of_strip hc.strip]
    rw [runClauses_cons, runClauses_cons, hstep, ih]

/-- Giving every node one place changes nothing else. -/
theorem unshare_revises {p' : Program} (hlaid : p'.Laid cs') (hunshared : Unshared cs')
    (hcopies : List.Forall₂ Clause.Copies cs cs') (hcode : OnlyCode p p') (htidy : p.Tidy)
    (hsymbols : ∀ name s, p.find name = some s → N.Mem s.shape)
    (hfits : ∀ c ∈ cs, c.Fits N p.find) :
    p'.Shows N cs' ∧ Revises N p cs p' cs' ∧ Lifts p cs p' cs' [] := by
  have hsym : p'.symbols = p.symbols := by rw [OnlyCode] at hcode; rw [hcode]
  have hnames : p'.names = p.names := by rw [OnlyCode] at hcode; rw [hcode]
  have hfusion : p'.fusion = p.fusion := by rw [OnlyCode] at hcode; rw [hcode]
  have hfind : p'.find = p.find := by rw [Program.find, hsym]
  refine ⟨⟨hlaid, hunshared, htidy.congr hsym hnames, by rwa [hfind], ?_⟩, ?_, ?_⟩
  · rw [hfind]
    exact fits_copies hfits hcopies hlaid.stored
  · refine .of_find_eq hfind hnames hfusion (fun _ {α} _ σ => run_copies hcopies σ)
      (fun {K} _ hs => sound_copies hs hcopies hlaid.stored) (fun hl c' hc' => ?_)
      fun hv => verified_copies hv hcopies
    obtain ⟨c, hc, hcopy⟩ := exists_of_forall₂ hcopies hc'
    exact hcopy.fuseAxis.trans (hl c hc)
  · have hreads : (cs'.flatMap fun c => c.tree.names) = cs.flatMap fun c => c.tree.names := by
      rw [List.flatMap_def, map_copies hcopies fun c c' hc => Tree.names_eq_of_strip hc.strip,
        ← List.flatMap_def]
    refine ⟨?_, .of_eq hreads, .nil, by simp, by simp, fun name s hs => .inl (by rwa [← hfind]), ?_⟩
    · rw [map_copies hcopies fun c c' hc => hc.name]
      exact .refl _
    · rw [hfind]
      refine .of_count (fun _ _ hs => hs) (fun name s _ => by rw [hreads]) fun c' hc' => ?_
      obtain ⟨c, hc, hcopy⟩ := exists_of_forall₂ hcopies hc'
      exact ⟨c, hc, hcopy.name.symm, by rw [hcopy.target]⟩

end

/-- The pass succeeds on verified clauses, shared nodes or not. Afterwards every node has one place
and the selected ones stand at roots. No clause is made to read its own destination. -/
theorem lift_spec (hpred : pred .identifier = false) {cs : List Clause} (hlaid : p.Laid cs)
    (hcs : ∀ c ∈ cs, Original p.nodes c) (htidy : p.Tidy)
    (hsymbols : ∀ name s, p.find name = some s → N.Mem s.shape)
    (hfits : ∀ c ∈ cs, c.Fits N p.find) (hverified : Verified p.find cs) :
    ∃ p' cs' added, lift pred p = .ok () p' ∧ p'.Shows N cs' ∧ Revises N p cs p' cs' ∧
      Lifts p cs p' cs' added ∧ (∀ c ∈ cs', Rooted pred c.tree) ∧
      ((∀ c ∈ cs, c.ReadsOthers) → ∀ c ∈ cs', c.ReadsOthers) := by
  obtain ⟨p₁, cs₁, hrun₁, hlaid₁, hunshared₁, hcopies, -, hcode⟩ := unshare_spec hlaid hcs
  obtain ⟨hshows₁, hrev₁, hlifts₁⟩ :=
    unshare_revises hlaid₁ hunshared₁ hcopies hcode htidy hsymbols hfits
  have hothers₁ : (∀ c ∈ cs, c.ReadsOthers) → ∀ c ∈ [] ++ cs₁, c.ReadsOthers := by
    intro h c' hc'
    obtain ⟨c, hc, hcopy⟩ := exists_of_forall₂ hcopies hc'
    rw [Clause.ReadsOthers, hcopy.name, Tree.names_eq_of_strip hcopy.strip]
    exact h c hc
  obtain ⟨p₂, cs₂, added, hrun₂, hshows₂, hrev₂, hlifts₂, hrooted, hothers₂⟩ :=
    liftFrom_spec hpred (show p₁.Shows N ([] ++ cs₁) from hshows₁) (by simp)
  have hrev := hrev₁.trans hrev₂
  refine ⟨p₂, cs₂, _, ?_, hshows₂, hrev, hlifts₁.trans hlifts₂ hrev₁.taken hrev₂.taken, hrooted,
    fun h => hothers₂ (hothers₁ h)⟩
  rw [lift, Edit.bind_ok hrun₁, Edit.bind_ok (Edit.query_some_run _), hlaid₁.assignments,
    List.length_map]
  exact (Edit.bind_ok hrun₂).trans (lifted_checks_run hshows₂ (hrev.verified hverified) hrooted)

end Pass

end LoopNest
