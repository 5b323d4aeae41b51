import LoopNest.Pass.Edit
import LoopNest.Proofs.Single
import LoopNest.Proofs.Verification

/-!
# Running edits

What the steps of an edit do when they succeed, and what they do to the table of nodes.
-/

namespace LoopNest

theorem modify_append_cons {τ : Type _} (l r : List τ) (x : τ) (f : τ → τ) :
    (l ++ x :: r).modify l.length f = l ++ f x :: r := by
  induction l with
  | nil => rfl
  | cons y l ih => simp [ih]

namespace Edit

variable {β γ : Type} {p p' : Program}

theorem bind_ok {x : Edit β} {f : β → Edit γ} {b : β} (h : x p = .ok b p') :
    (x >>= f) p = f b p' := by
  show EStateM.bind x f p = f b p'
  unfold EStateM.bind
  rw [h]

@[simp] theorem pure_run (b : β) : (pure b : Edit β) p = .ok b p := rfl

@[simp] theorem get_run : (get : Edit Program) p = .ok p p := rfl

theorem query_run {f : Program → Option β} {b : β} (h : f p = some b) :
    Edit.query f p = .ok b p := by
  simp [query, h]

theorem query_some_run (f : Program → β) : Edit.query (fun p => some (f p)) p = .ok (f p) p := rfl

theorem change_some_run (f : Program → Program) :
    Edit.change (fun p => some (f p)) p = .ok () (f p) := rfl

theorem change_run {f : Program → Option Program} (h : f p = some p') :
    Edit.change f p = .ok () p' := by
  simp [change, h]

theorem update_run {f : Program → Option (β × Program)} {b : β} (h : f p = some (b, p')) :
    Edit.update f p = .ok b p' := by
  simp [update, h]

theorem within_run {f : Diagnostic → Diagnostic} {r : Edit β} {b : β} (h : r p = .ok b p') :
    Edit.within f r p = .ok b p' := by
  simp [within, h]

theorem check_run {f : Program → Option (Option Diagnostic)} (h : f p = some none) :
    Edit.check f p = .ok () p := by
  rw [Edit.check, bind_ok (query_run h)]
  rfl

theorem check_ok {f : Program → Option (Option Diagnostic)} (h : Edit.check f p = .ok () p') :
    p' = p := by
  unfold Edit.check at h
  cases hf : f p with
  | none => simp [query, hf, bind, EStateM.bind] at h
  | some d =>
    rw [bind_ok (query_run hf)] at h
    cases d with
    | none =>
      cases h
      rfl
    | some d => cases h

theorem verify_run {opts : VerifyOptions} (h : p.verify opts = some none) :
    Edit.verify opts p = .ok () p := check_run h

/-- The program that an edit leaves. -/
def after (x : Edit β) (p : Program) : Program :=
  match x p with
  | .ok _ q | .error _ q => q

theorem after_ok {x : Edit β} {b : β} (h : x p = .ok b p') : x.after p = p' := by
  rw [after, h]

/-- A check at the end of a pass leaves the program as it is. -/
theorem of_check_ok {x : Edit β} {f : Program → Option (Option Diagnostic)}
    (h : (x >>= fun _ => Edit.check f) p = .ok () p') : ∃ b, x p = .ok b p' := by
  cases hx : x p with
  | ok b q =>
    rw [bind_ok hx] at h
    rw [check_ok h]
    exact ⟨b, rfl⟩
  | error e q => simp [bind, EStateM.bind, hx] at h

theorem node_run {id : NodeId} {n : Node} (h : p.nodes[id]? = some n) :
    Edit.node id p = .ok n p := query_run h

theorem setSlot_run {i : Nat} {slot : Slot} {id : NodeId} (h : p.setSlot? i slot id = some p') :
    Edit.setSlot i slot id p = .ok () p' := change_run h

theorem modifyNode_run {id : NodeId} {n : Node} (f : Node → Node) (h : p.nodes[id]? = some n) :
    Edit.modifyNode id f p = .ok () (p.modifyNode id f) :=
  change_run (by simp [Program.node?, h])

theorem addView_run (p : Program) (name : String) (shape : Shape) (fixed : List Int)
    (perm : List Swap) : Edit.addView name shape fixed perm p =
      .ok (p.addView name shape fixed perm).1 (p.addView name shape fixed perm).2 := rfl

theorem addIdent_run (p : Program) (name : String) (shape : Shape) :
    Edit.addIdent name shape p = .ok (p.addIdent name shape).1 (p.addIdent name shape).2 := rfl

theorem synthesize_run (p : Program) (root : String) (shape : Shape) :
    Edit.synthesize root shape p =
      .ok (p.synthesize root shape).1 (p.synthesize root shape).2 := rfl

theorem assignment_run {i : Nat} {a : Assignment} (h : p.assignments[i]? = some a) :
    Edit.assignment i p = .ok a p := query_run h

end Edit

namespace Program

variable {p p' : Program}

/-- Nodes are added at the end of the table, and nothing else changes. -/
def Grows (p p' : Program) : Prop := ∃ ext : Array Node, p' = { p with nodes := p.nodes ++ ext }

namespace Grows

theorem refl (p : Program) : p.Grows p := ⟨#[], by simp⟩

theorem trans {q : Program} (h : p.Grows q) (h' : q.Grows p') : p.Grows p' := by
  obtain ⟨ext, rfl⟩ := h
  obtain ⟨ext', rfl⟩ := h'
  exact ⟨ext ++ ext', by simp [Array.append_assoc]⟩

theorem push (p : Program) (n : Node) : p.Grows (p.add n).2 :=
  ⟨#[n], by rw [add, Array.push_eq_append]⟩

theorem size_le (h : p.Grows p') : p.nodes.size ≤ p'.nodes.size := by
  obtain ⟨ext, rfl⟩ := h
  simp

theorem getElem?_eq (h : p.Grows p') {i : NodeId} (hi : i < p.nodes.size) :
    p'.nodes[i]? = p.nodes[i]? := by
  obtain ⟨ext, rfl⟩ := h
  exact Array.getElem?_append_left hi

theorem node_eq (h : p.Grows p') {i : NodeId} {n : Node} (hn : p.nodes[i]? = some n) :
    p'.nodes[i]? = some n :=
  (h.getElem?_eq (Array.getElem?_eq_some_iff.mp hn).1).trans hn

theorem storedIn (h : p.Grows p') {t : Tree} (ht : t.StoredIn p.nodes) : t.StoredIn p'.nodes :=
  ht.frame fun i hi => h.getElem?_eq (ht.lt_size i hi)

theorem assignments (h : p.Grows p') : p'.assignments = p.assignments := by
  obtain ⟨ext, rfl⟩ := h
  rfl

end Grows

theorem add_node (p : Program) (n : Node) : (p.add n).2.nodes[(p.add n).1]? = some n := by
  simp [add]

theorem getElem?_modifyNode (p : Program) (id i : NodeId) (f : Node → Node) :
    (p.modifyNode id f).nodes[i]? = if id = i then p.nodes[i]?.map f else p.nodes[i]? := by
  simp only [modifyNode, Array.getElem?_modify]

theorem setSlot?_operand {parent : NodeId} {index i : Nat} {n : Node}
    (h : p.nodes[parent]? = some n) (hlt : index < n.operands.length) (id : NodeId) :
    p.setSlot? i (.operand parent index) id =
      some (p.modifyNode parent fun n => { n with operands := n.operands.set index id }) := by
  simp [setSlot?, node?, h, hlt]

theorem setSlot?_root {i : Nat} (h : i < p.assignments.length) (id : NodeId) :
    p.setSlot? i .root id = some (p.modifyAssignment i fun a => { a with expr := id }) := by
  simp [setSlot?, h]

/-- Putting a node where it is already changes nothing. -/
theorem setSlot?_same {i : Nat} {a : Assignment} {slot : Slot} {id : NodeId}
    (ha : p.assignments[i]? = some a) (h : p.slotNode? a slot = some id) :
    p.setSlot? i slot id = some p := by
  cases slot with
  | root =>
    cases h
    rw [setSlot?_root (List.getElem?_eq_some_iff.mp ha).1, modifyAssignment]
    congr
    refine List.ext_getElem? fun j => ?_
    rw [List.getElem?_modify]
    split
    · rename_i hj
      subst hj
      rw [ha]
      rfl
    · simp
  | operand parent k =>
    obtain ⟨n, hn, hk⟩ := Option.bind_eq_some_iff.mp h
    rw [setSlot?_operand hn (List.getElem?_eq_some_iff.mp hk).1, modifyNode]
    congr
    refine Array.ext_getElem? fun j => ?_
    rw [Array.getElem?_modify]
    split
    · rename_i hj
      subst hj
      obtain ⟨hlt, rfl⟩ := List.getElem?_eq_some_iff.mp hk
      rw [show p.nodes[parent]? = some n from hn, Option.map_some, List.set_getElem_self]
    · rfl

end Program

/-! ## Replacing a subexpression -/

section
variable {p q : Program} {l r : List Clause} {c : Clause} {Q : Node → Prop} {x s t' : Tree}
  {slot : Slot}

/-- The nodes after a subexpression was replaced. -/
theorem ids_rewrite (hrw : Tree.Rewrites Q x s slot c.tree t') :
    (x.ids ++ (l ++ ([{ c with tree := t' }] ++ r)).flatMap Clause.ids).Perm
      (s.ids ++ (l ++ ([c] ++ r)).flatMap Clause.ids) := by
  obtain ⟨A, B, hA, hB⟩ := hrw.ids
  rw [List.perm_iff_count]
  intro i
  simp only [List.flatMap_append, List.flatMap_cons, List.flatMap_nil, Clause.ids, hA, hB,
    List.count_append, List.count_cons, List.count_nil]
  omega

/-- Every node still has one place when the nodes of the new subexpression are new or were nodes of
the old one. -/
theorem Unshared.rewrite (h : Unshared (l ++ ([c] ++ r)))
    (hrw : Tree.Rewrites Q x s slot c.tree t') (hnd : s.ids.Nodup)
    (hnew : ∀ i ∈ s.ids, i ∈ x.ids ∨ i ∉ (l ++ ([c] ++ r)).flatMap Clause.ids) :
    Unshared (l ++ ([{ c with tree := t' }] ++ r)) := by
  have hcount := List.perm_iff_count.mp (ids_rewrite (l := l) (r := r) hrw)
  have hmem : ∀ i, i ∈ x.ids → i ∈ (l ++ ([c] ++ r)).flatMap Clause.ids := fun i hi =>
    List.mem_flatMap.mpr ⟨c, by simp, List.mem_cons_of_mem _ (hrw.ids_subset i hi)⟩
  have hone : ∀ i, ((l ++ ([c] ++ r)).flatMap Clause.ids).count i ≤ 1 := fun i =>
    List.nodup_iff_count_le_one.mp h i
  refine List.nodup_iff_count_le_one.mpr fun i => ?_
  have hi := hcount i
  rw [List.count_append, List.count_append] at hi
  by_cases hs : i ∈ s.ids
  · have hs₁ : s.ids.count i ≤ 1 := List.nodup_iff_count_le_one.mp hnd i
    rcases hnew i hs with hx | hx
    · have hx₁ : 1 ≤ x.ids.count i := List.one_le_count_iff.mpr hx
      have := hone i
      omega
    · have hx₁ := List.count_eq_zero.mpr hx
      omega
  · have hs₁ := List.count_eq_zero.mpr hs
    have := hone i
    omega

theorem Program.Laid.slotNode?_eq {cs : List Clause} (h : p.Laid cs) (hc : c ∈ cs)
    (hrw : Tree.Rewrites Q x s slot c.tree t') : p.slotNode? c.assignment slot = some x.root := by
  cases slot with
  | root =>
    cases hrw with
    | root => rfl
  | operand parent k =>
    obtain ⟨n, hn, hk⟩ := hrw.operand_eq (h.stored c hc)
    simp [Program.slotNode?, Program.operand?, Program.node?, hn, hk]

/-- Puts a subexpression that was prepared at a slot. Only the nodes of the one that it replaces
were changed before. -/
theorem Program.Laid.setSlot (h : p.Laid (l ++ ([c] ++ r))) (hun : Unshared (l ++ ([c] ++ r)))
    (hrw : Tree.Rewrites Q x s slot c.tree t') (hass : q.assignments = p.assignments)
    (hframe : ∀ i < p.nodes.size, i ∉ x.ids → q.nodes[i]? = p.nodes[i]?)
    (hs : s.StoredIn q.nodes) (hnew : ∀ i ∈ s.ids, i ∈ x.ids ∨ p.nodes.size ≤ i) :
    ∃ q', Edit.setSlot l.length slot s.root q = .ok () q' ∧
      q'.Laid (l ++ ([{ c with tree := t' }] ++ r)) ∧ q'.symbols = q.symbols ∧
      q'.names = q.names ∧ q'.fusion = q.fusion := by
  have hc : c ∈ l ++ ([c] ++ r) := by simp
  have hnd : c.tree.ids.Nodup := (List.nodup_cons.mp (Unshared.nodup hun)).2
  have hdst : c.dst ∉ c.tree.ids := (List.nodup_cons.mp (Unshared.nodup hun)).1
  have hother : ∀ d ∈ l ++ r, ∀ i ∈ d.ids, i < p.nodes.size ∧ i ∉ c.tree.ids := fun d hd i hi =>
    ⟨h.lt_size (by simp at hd ⊢; tauto) hi,
      fun hmem => Unshared.notMem hun hd hi (List.mem_cons_of_mem _ hmem)⟩
  cases slot with
  | root =>
    have hlt : l.length < q.assignments.length := by simp [hass, h.assignments]
    cases hrw with
    | root =>
      refine ⟨_, Edit.setSlot_run (Program.setSlot?_root hlt s.root), ?_, rfl, rfl, rfl⟩
      refine h.replace _ ?_ (fun d hd i hi => hframe i (hother d hd i hi).1 (hother d hd i hi).2) ?_
      · show q.assignments.modify _ _ = _
        rw [hass, h.assignments, List.map_append, List.map_append, List.map_singleton,
          List.singleton_append, ← List.length_map (f := Clause.assignment), modify_append_cons]
        simp [Clause.assignment]
      · intro e he
        rw [List.mem_singleton.mp he]
        exact ⟨(hframe c.dst (h.lt_size hc (.head _)) hdst).trans (h.target c hc), hs⟩
  | operand parent k =>
    obtain ⟨n, hn, hk⟩ := hrw.operand_eq (h.stored c hc)
    have hpar : parent ∈ c.tree.ids := hrw.parent_mem
    have hparx : parent ∉ x.ids := hrw.parent_notMem hnd
    have hlt : parent < p.nodes.size := h.lt_size hc (List.mem_cons_of_mem _ hpar)
    have hpars : parent ∉ s.ids := fun hmem =>
      (hnew parent hmem).elim hparx fun hle => Nat.not_lt.mpr hle hlt
    have hn' : q.nodes[parent]? = some n := (hframe parent hlt hparx).trans hn
    refine ⟨_, Edit.setSlot_run (Program.setSlot?_operand hn' (List.getElem?_eq_some_iff.mp hk).1
      s.root), ?_, rfl, rfl, rfl⟩
    have hmod : ∀ i, i ≠ parent →
        (q.modifyNode parent fun n => { n with operands := n.operands.set k s.root }).nodes[i]? =
          q.nodes[i]? := fun i hi => by
      rw [Program.getElem?_modifyNode, if_neg (Ne.symm hi)]
    refine h.replace _ ?_ (fun d hd i hi => ?_) ?_
    · show q.assignments = _
      rw [hass, h.assignments]
      simp [Clause.assignment, hrw.root_eq]
    · obtain ⟨hi₁, hi₂⟩ := hother d hd i hi
      rw [hmod i (by rintro rfl; exact hi₂ hpar)]
      exact hframe i hi₁ fun hmem => hi₂ (hrw.ids_subset i hmem)
    · intro e he
      rw [List.mem_singleton.mp he]
      refine ⟨?_, hrw.storedIn (h.stored c hc) hnd (hs.frame fun i hi => ?_) ?_ ?_⟩
      · show (q.modifyNode parent _).nodes[c.dst]? = _
        rw [hmod c.dst (by rintro rfl; exact hdst hpar)]
        exact (hframe c.dst (h.lt_size hc (.head _)) fun hmem => hdst (hrw.ids_subset _ hmem)).trans
          (h.target c hc)
      · rw [hmod i (by rintro rfl; exact hpars hi)]
      · intro i hi hx hne
        rw [hmod i (by rintro rfl; exact hne k rfl)]
        exact hframe i (h.lt_size hc (List.mem_cons_of_mem _ hi)) hx
      · rintro _ _ ⟨⟩
        rw [Program.getElem?_modifyNode, if_pos rfl, hn', hn]

end

/-! ## Programs between passes -/

/-- A program that consists of the given clauses. Every node has one place, and the nodes belong to
a class. -/
structure Program.Shows (N : NodeClass) (p : Program) (cs : List Clause) : Prop where
  laid : p.Laid cs
  unshared : Unshared cs
  tidy : p.Tidy
  symbols : ∀ name s, p.find name = some s → N.Mem s.shape
  fits : ∀ c ∈ cs, c.Fits N p.find

theorem Program.Shows.mem_shapes {N : NodeClass} {p : Program} {cs : List Clause} (h : p.Shows N cs)
    (name : String) (stored : Shape) (hs : p.find.shapes name = some stored) : N.Mem stored := by
  obtain ⟨s, hfind, rfl⟩ := Option.map_eq_some_iff.mp hs
  exact h.symbols name s hfind

/-- One program does what another does. A tensor that both declare has the same contents in the end,
whatever all tensors hold at the start. The tensors that only one of them declares are synthesized,
and new ones have new names. What is sound remains so. -/
structure Refines (N : NodeClass) (p : Program) (cs : List Clause) (p' : Program)
    (cs' : List Clause) : Prop where
  taken : p.names.taken ⊆ p'.names.taken
  fusion : p'.fusion = p.fusion
  kept : ∀ name s, p.find name = some s → p'.find name = some s ∨
    s.role.isSynthesized ∧ p'.find name = none ∧ name ∈ p'.names.taken
  new : ∀ name s, p'.find name = some s → p.find name = some s ∨
    s.role = .synthesized ∧ name ∉ p.names.taken
  run : N.Sized → ∀ {α : Type} [Scalar α] (σ : Cells α) name s, p.find name = some s →
    p'.find name = some s → runClauses cs' σ name = runClauses cs σ name
  sound : ∀ {K : ShapeClass}, N = K.nodes → Sound K p.find cs → Sound K p'.find cs'
  loops : (∀ c ∈ cs, c.fuseAxis = none) → ∀ c ∈ cs', c.fuseAxis = none

namespace Refines

variable {N : NodeClass} {p p' p₁ p₂ : Program} {cs cs' cs₁ cs₂ : List Clause}

theorem refl (N : NodeClass) (p : Program) (cs : List Clause) : Refines N p cs p cs :=
  ⟨List.Subset.refl _, rfl, fun _ _ => .inl, fun _ _ => .inl, fun _ _ _ _ _ _ _ _ => rfl,
    fun _ h => h, id⟩

/-- A name that is taken is not declared anew. -/
theorem find_eq_none (h : Refines N p cs p' cs') {name : String} (hnone : p.find name = none)
    (htaken : name ∈ p.names.taken) : p'.find name = none := by
  cases hs : p'.find name with
  | none => rfl
  | some s =>
    rcases h.new name s hs with hs | ⟨-, hnot⟩
    · rw [hnone] at hs
      cases hs
    · exact absurd htaken hnot

theorem trans (h : Refines N p cs p₁ cs₁) (h' : Refines N p₁ cs₁ p₂ cs₂) :
    Refines N p cs p₂ cs₂ := by
  refine ⟨List.Subset.trans h.taken h'.taken, h'.fusion.trans h.fusion, fun name s hs => ?_,
    fun name s hs => ?_, fun hN {α} _ σ name s hs hs₂ => ?_, fun hK hs => h'.sound hK (h.sound hK hs),
    fun hl => h'.loops (h.loops hl)⟩
  · rcases h.kept name s hs with hs | ⟨hsynth, hnone, htaken⟩
    · exact h'.kept name s hs
    · exact .inr ⟨hsynth, h'.find_eq_none hnone htaken, h'.taken htaken⟩
  · rcases h'.new name s hs with hs | ⟨hsynth, hnot⟩
    · exact h.new name s hs
    · exact .inr ⟨hsynth, fun hmem => hnot (h.taken hmem)⟩
  · rcases h.kept name s hs with hs₁ | ⟨-, hnone, htaken⟩
    · rw [h'.run hN σ name s hs₁ hs₂, h.run hN σ name s hs hs₁]
    · rw [h'.find_eq_none hnone htaken] at hs₂
      cases hs₂

/-- The tensors that are not synthesized are the same. -/
theorem symbols (h : Refines N p cs p' cs') {name : String} {s : Symbol}
    (hs : s.role.isSynthesized = false) : p'.find name = some s ↔ p.find name = some s := by
  constructor
  · intro hfind
    refine (h.new name s hfind).resolve_right fun ⟨hsynth, _⟩ => ?_
    rw [hsynth] at hs
    cases hs
  · intro hfind
    refine (h.kept name s hfind).resolve_right fun ⟨hsynth, _⟩ => ?_
    rw [hs] at hsynth
    cases hsynth

end Refines

/-- The symbols stay as they are. -/
theorem Refines.of_find_eq {N : NodeClass} {p p' : Program} {cs cs' : List Clause}
    (hfind : p'.find = p.find) (hnames : p'.names = p.names) (hfusion : p'.fusion = p.fusion)
    (hrun : N.Sized → ∀ {α : Type} [Scalar α] (σ : Cells α), runClauses cs' σ = runClauses cs σ)
    (hsound : ∀ {K : ShapeClass}, N = K.nodes → Sound K p.find cs → Sound K p.find cs')
    (hloops : (∀ c ∈ cs, c.fuseAxis = none) → ∀ c ∈ cs', c.fuseAxis = none) :
    Refines N p cs p' cs' where
  taken := by rw [hnames]; exact List.Subset.refl _
  fusion := hfusion
  kept name s hs := .inl (by rwa [hfind])
  new name s hs := .inl (by rwa [← hfind])
  run hN _ _ σ name s _ _ := by rw [hrun hN σ]
  sound hK hs := hfind ▸ hsound hK hs
  loops := hloops

/-- A node is added that belongs to no clause yet. -/
theorem Refines.add {N : NodeClass} {p p' : Program} {cs cs' : List Clause} {n : Node}
    (h : Refines N (p.add n).2 cs p' cs') : Refines N p cs p' cs' := by
  have hadd : Refines N p cs (p.add n).2 cs :=
    .of_find_eq rfl rfl rfl (fun _ _ _ _ => rfl) (fun _ hs => hs) id
  exact hadd.trans h

/-- A refinement after which the tensors that were read once still are. -/
structure Retains (N : NodeClass) (p : Program) (cs : List Clause) (p' : Program)
    (cs' : List Clause) : Prop extends Refines N p cs p' cs' where
  single : KeepsSingle p.find cs p'.find cs'

namespace Retains

variable {N : NodeClass} {p p' p₁ p₂ : Program} {cs cs' cs₁ cs₂ : List Clause}

theorem refl (N : NodeClass) (p : Program) (cs : List Clause) : Retains N p cs p cs :=
  ⟨.refl N p cs, .refl _ _⟩

theorem trans (h : Retains N p cs p₁ cs₁) (h' : Retains N p₁ cs₁ p₂ cs₂) :
    Retains N p cs p₂ cs₂ :=
  ⟨h.toRefines.trans h'.toRefines, h.single.trans h'.single⟩

/-- A node is added that belongs to no clause yet. -/
theorem add {n : Node} (h : Retains N (p.add n).2 cs p' cs') : Retains N p cs p' cs' :=
  ⟨h.toRefines.add, h.single⟩

/-- The symbols stay as they are. -/
theorem of_find_eq (hfind : p'.find = p.find) (hnames : p'.names = p.names)
    (hfusion : p'.fusion = p.fusion)
    (hrun : N.Sized → ∀ {α : Type} [Scalar α] (σ : Cells α), runClauses cs' σ = runClauses cs σ)
    (hsound : ∀ {K : ShapeClass}, N = K.nodes → Sound K p.find cs → Sound K p.find cs')
    (hloops : (∀ c ∈ cs, c.fuseAxis = none) → ∀ c ∈ cs', c.fuseAxis = none)
    (hsingle : KeepsSingle p.find cs p.find cs') : Retains N p cs p' cs' :=
  ⟨.of_find_eq hfind hnames hfusion hrun hsound hloops, hfind ▸ hsingle⟩

end Retains

/-- A refinement that removes no tensor and breaks no invariant that is checked. -/
structure Revises (N : NodeClass) (p : Program) (cs : List Clause) (p' : Program)
    (cs' : List Clause) : Prop extends Refines N p cs p' cs' where
  extended : p.find.Extends p'.find
  verified : Verified p.find cs → Verified p'.find cs'

namespace Revises

variable {N : NodeClass} {p p' p₁ p₂ : Program} {cs cs' cs₁ cs₂ : List Clause}

theorem refl (N : NodeClass) (p : Program) (cs : List Clause) : Revises N p cs p cs :=
  ⟨.refl N p cs, fun _ _ h => h, id⟩

theorem trans (h : Revises N p cs p₁ cs₁) (h' : Revises N p₁ cs₁ p₂ cs₂) :
    Revises N p cs p₂ cs₂ :=
  ⟨h.toRefines.trans h'.toRefines, fun name s hs => h'.extended name s (h.extended name s hs),
    fun hv => h'.verified (h.verified hv)⟩

/-- The symbols stay as they are. -/
theorem of_find_eq (hfind : p'.find = p.find) (hnames : p'.names = p.names)
    (hfusion : p'.fusion = p.fusion)
    (hrun : N.Sized → ∀ {α : Type} [Scalar α] (σ : Cells α), runClauses cs' σ = runClauses cs σ)
    (hsound : ∀ {K : ShapeClass}, N = K.nodes → Sound K p.find cs → Sound K p.find cs')
    (hloops : (∀ c ∈ cs, c.fuseAxis = none) → ∀ c ∈ cs', c.fuseAxis = none)
    (hverified : Verified p.find cs → Verified p.find cs') : Revises N p cs p' cs' where
  toRefines := .of_find_eq hfind hnames hfusion hrun hsound hloops
  extended name s hs := by rwa [hfind]
  verified hv := hfind ▸ hverified hv

/-- A synthesized tensor is added under a new name. -/
theorem of_new {sym : Symbol} {name : String} (htidy : p.Tidy) (hnew : name ∉ p.names.taken)
    (hfind : ∀ m, p'.find m = if m = name then some sym else p.find m)
    (hnames : p'.names.taken = name :: p.names.taken) (hfusion : p'.fusion = p.fusion)
    (hsynth : sym.role = .synthesized)
    (hrun : N.Sized → ∀ {α : Type} [Scalar α] (σ : Cells α) m, m ≠ name →
      runClauses cs' σ m = runClauses cs σ m)
    (hsound : ∀ {K : ShapeClass}, N = K.nodes → Sound K p.find cs → Sound K p'.find cs')
    (hloops : (∀ c ∈ cs, c.fuseAxis = none) → ∀ c ∈ cs', c.fuseAxis = none)
    (hverified : Verified p.find cs → Verified p'.find cs') : Revises N p cs p' cs' := by
  have hne : ∀ m s, p.find m = some s → m ≠ name := by
    rintro m s hs rfl
    exact hnew (htidy.mem_taken hs)
  have hext : p.find.Extends p'.find := fun m s hs => by rw [hfind, if_neg (hne m s hs), hs]
  refine ⟨⟨?_, hfusion, fun m s hs => .inl (hext m s hs), fun m s hs => ?_,
    fun hN {α} _ σ m s hs _ => hrun hN σ m (hne m s hs), hsound, hloops⟩, hext, hverified⟩
  · rw [hnames]
    exact List.subset_cons_self _ _
  · rw [hfind] at hs
    split at hs
    · rename_i heq
      cases hs
      exact .inr ⟨hsynth, heq ▸ hnew⟩
    · exact .inl hs

end Revises

theorem extends_of_new {find find' : Symbols} {new : String} {sym : Symbol} (hnone : find new = none)
    (hfind : ∀ name, find' name = if name = new then some sym else find name) :
    find.Extends find' := by
  intro name s hs
  rw [hfind, if_neg]
  · exact hs
  · rintro rfl
    rw [hnone] at hs
    cases hs

/-! ## Revising a clause -/

section
variable {N : NodeClass} {find : Symbols} {l r : List Clause} {c c' : Clause}

/-- A clause that writes the same destination and reads nothing new keeps the invariants. -/
theorem Sound.revise {K : ShapeClass} (h : Sound K find (l ++ ([c] ++ r))) (hfits : c'.Fits K find)
    (htarget : c.target.Alike c'.target) (hnames : ∀ m ∈ c'.tree.names, m ∈ c.tree.names) :
    Sound K find (l ++ ([c'] ++ r)) := by
  have hname : c'.name = c.name := by rw [Clause.name, htarget]
  have hfixed : c'.target.fixed = c.target.fixed := by rw [htarget]
  refine Replacement.result ⟨h, fun _ _ hs => hs, fun _ _ => .inl, ?_,
    ⟨fun m hm s hs => ?_, trivial⟩, ?_, by simp, ?_⟩
  · intro d hd
    rwa [List.mem_singleton.mp hd]
  · have hord := (ordered_append.mp (ordered_append.mp h.ordered).2).1.1
    simpa using hord m (hnames m hm) s hs
  · rintro name sub ⟨n, hn, rfl, hown⟩
    rw [List.map_singleton, List.mem_singleton] at hn
    subst hn
    refine ⟨c'.target, by simp, hname, ?_⟩
    rw [htarget]
    exact hown
  · intro d hd
    rw [List.mem_singleton.mp hd]
    exact .inr ⟨c, by simp, hname.symm, [], by rw [List.append_nil, hfixed]⟩

theorem Verified.revise (h : Verified find (l ++ ([c] ++ r))) (htarget : c.target.Alike c'.target)
    (hnames : ∀ m ∈ c'.tree.names, m ∈ c.tree.names) : Verified find (l ++ ([c'] ++ r)) := by
  have hname : c'.name = c.name := by rw [Clause.name, htarget]
  have hdef : c'.definition find = c.definition find :=
    Clause.definition_congr (by rw [hname]) hname (by rw [htarget])
  refine ⟨?_, ?_, fun name s hs hsynth => ?_⟩
  · obtain ⟨hl, hc, hr⟩ := writtenFirst_append.mp h.ordered
    exact writtenFirst_append.mpr ⟨hl, fun m hm => hc m (hnames m hm), by rw [hname]; exact hr⟩
  · simpa [hdef] using h.definitions
  · obtain ⟨d, hd, hdname⟩ := h.defined name s hs hsynth
    simp only [List.mem_append, List.mem_singleton] at hd
    rcases hd with hd | rfl | hd
    · exact ⟨d, by simp [hd], hdname⟩
    · exact ⟨c', by simp, hname.trans hdname⟩
    · exact ⟨d, by simp [hd], hdname⟩

end

/-- A subexpression is replaced by one of the same shape and value that reads the same. -/
theorem Program.Shows.setSlot {N : NodeClass} {p q : Program} {l r : List Clause} {c : Clause}
    {Q : Node → Prop} {x s t' : Tree} {slot : Slot} (h : p.Shows N (l ++ ([c] ++ r)))
    (hrw : Tree.Rewrites Q x s slot c.tree t')
    (hcode : q.assignments = p.assignments ∧ q.symbols = p.symbols ∧ q.names = p.names ∧
      q.fusion = p.fusion)
    (hframe : ∀ i < p.nodes.size, i ∉ x.ids → q.nodes[i]? = p.nodes[i]?)
    (hstored : s.StoredIn q.nodes) (hnd : s.ids.Nodup)
    (hnew : ∀ i ∈ s.ids, i ∈ x.ids ∨ p.nodes.size ≤ i) (htyped : s.Typed N.Admits p.find.shapes)
    (hshape : s.shape = x.shape) (hnames : s.names = x.names)
    (heval : ∀ {α : Type} [Scalar α] (σ : Cells α) idx, InRange x.shape idx →
      x.eval σ idx = s.eval σ idx) :
    ∃ q', Edit.setSlot l.length slot s.root q = .ok () q' ∧
      q'.Shows N (l ++ ([{ c with tree := t' }] ++ r)) ∧
      Revises N p (l ++ ([c] ++ r)) q' (l ++ ([{ c with tree := t' }] ++ r)) ∧
      KeepsSingle p.find (l ++ ([c] ++ r)) q'.find (l ++ ([{ c with tree := t' }] ++ r)) := by
  obtain ⟨hass, hsym, hsupply, hfus⟩ := hcode
  have hfits := h.fits c (by simp)
  obtain ⟨ht, hts⟩ := hrw.typed N.admits_operands hfits.typed htyped hshape
  obtain ⟨q', hset, hlaid, hsym', hsupply', hfus'⟩ := h.laid.setSlot h.unshared hrw hass hframe
    hstored hnew
  have hfind : q'.find = p.find := by rw [Program.find, hsym', hsym]
  have hfits' : Clause.Fits N p.find { c with tree := t' } :=
    ⟨hfits.kind, hfits.declared, hts.trans hfits.shape, ht⟩
  have hsame : t'.names = c.tree.names := by
    obtain ⟨A, B, hA, hB⟩ := hrw.names
    rw [hA, hB, hnames]
  have hreads : ∀ m ∈ t'.names, m ∈ c.tree.names := fun m hm => hsame ▸ hm
  refine ⟨q', hset, ⟨hlaid, h.unshared.rewrite hrw hnd fun i hi => ?_, ?_, ?_, ?_⟩, ?_, ?_⟩
  · refine (hnew i hi).imp_right fun hle hmem => ?_
    obtain ⟨d, hd, hid⟩ := List.mem_flatMap.mp hmem
    exact Nat.not_lt.mpr hle (h.laid.lt_size hd hid)
  · exact h.tidy.congr (hsym'.trans hsym) (hsupply'.trans hsupply)
  · rw [hfind]
    exact h.symbols
  · rw [hfind]
    intro d hd
    simp only [List.mem_append, List.mem_singleton] at hd
    rcases hd with hd | rfl | hd
    · exact h.fits d (by simp [hd])
    · exact hfits'
    · exact h.fits d (by simp [hd])
  · refine .of_find_eq hfind (hsupply'.trans hsupply) (hfus'.trans hfus) (fun hN {α} _ σ => ?_)
      (fun {K} hK hs => ?_) (fun hl d hd => ?_) fun hv => hv.revise (.refl _) hreads
    · rw [runClauses_append, runClauses_append, runClauses_append, runClauses_append]
      have hstep : ∀ σ : Cells α, runClauses [{ c with tree := t' }] σ = runClauses [c] σ := by
        intro σ
        funext name sub
        refine (@Clause.step_congr α _ c { c with tree := t' } σ σ name sub rfl rfl
          fun idx _ hown => ?_).symm
        refine hrw.eval_eq hN.admits hfits.typed ht hshape (fun _ _ => rfl) (fun i hi => heval σ i hi) ?_
        rw [hfits.shape]
        exact (Node.own?_eq_some_iff.mp hown).2
      rw [hstep]
    · subst hK
      exact hs.revise hfits' (.refl _) hreads
    · simp only [List.mem_append, List.mem_singleton] at hd
      rcases hd with hd | rfl | hd
      · exact hl d (by simp [hd])
      · exact hl c (by simp)
      · exact hl d (by simp [hd])
  · rw [hfind]
    refine .replace (fun _ _ hs => hs) (fun name s _ => by simp [hsame]) fun d hd => ?_
    rw [List.mem_singleton.mp hd]
    exact ⟨c, by simp, rfl, rfl⟩

end LoopNest
