import LoopNest.Proofs.Symbol
import LoopNest.Proofs.Tree.Rewriting

/-!
# Clauses

A clause is an assignment together with the node of its destination and the tree of its expression.
Clauses have a meaning of their own, on cells: a clause gives every cell of its destination the
value of its tree, all at once (`Clause.step`), and a list of clauses is run from first to last
(`runClauses`). The passes are compared in this meaning. `Sound` collects the invariants of the
clauses of a program over its symbols.
-/

namespace LoopNest

/-! ## The cells of a destination -/

/-- The index of a destination whose element is stored at a subscript. -/
def Node.own? (n : Node) (sub : List Int) : Option (List Int) := do
  let l ← forward n.perm sub
  if l.take n.fixed.length = n.fixed ∧ InRange n.shape (l.drop n.fixed.length) then
    some (l.drop n.fixed.length)
  else none

theorem Node.own?_eq_some_iff {n : Node} {sub idx : List Int} :
    n.own? sub = some idx ↔ n.subscript id idx = some sub ∧ InRange n.shape idx := by
  simp only [own?, subscript, Option.bind_eq_bind, Option.bind_eq_some_iff, List.map_id,
    backward_eq_some_iff, Option.ite_none_right_eq_some, Option.some.injEq]
  constructor
  · rintro ⟨l, hl, ⟨hfix, hin⟩, rfl⟩
    refine ⟨?_, hin⟩
    rw [hl]
    conv_lhs => rw [← List.take_append_drop n.fixed.length l, hfix]
  · rintro ⟨hl, hin⟩
    exact ⟨_, hl, ⟨by simp, by simpa using hin⟩, by simp⟩

theorem Node.own?_whole {n : Node} (hfixed : n.fixed = []) (hperm : n.perm = []) {sub : List Int}
    (h : InRange n.shape sub) : n.own? sub = some sub :=
  own?_eq_some_iff.2 ⟨by simp [subscript, hfixed, hperm], h⟩

/-- No cell belongs to both destinations. -/
def Node.Disjoint (n m : Node) : Prop :=
  n.name = m.name → ∀ sub, n.own? sub = none ∨ m.own? sub = none

/-- A cell of a tensor belongs to one of the destinations. -/
def Covers (written : List Node) (name : String) (sub : List Int) : Prop :=
  ∃ n ∈ written, n.name = name ∧ (n.own? sub).isSome

/-- The destinations have every cell of a tensor of the given shape. -/
def Filled (written : List Node) (name : String) (stored : Shape) : Prop :=
  ∀ sub, InRange stored sub → Covers written name sub

theorem Covers.mono {written written' : List Node} {name : String} {sub : List Int}
    (h : Covers written name sub) (hsub : written ⊆ written') : Covers written' name sub := by
  obtain ⟨n, hn, hname, hown⟩ := h
  exact ⟨n, hsub hn, hname, hown⟩

theorem covers_append {l r : List Node} {name : String} {sub : List Int} :
    Covers (l ++ r) name sub ↔ Covers l name sub ∨ Covers r name sub := by
  simp only [Covers, List.mem_append, or_and_right, exists_or]

theorem covers_cons {n : Node} {l : List Node} {name : String} {sub : List Int} :
    Covers (n :: l) name sub ↔ n.name = name ∧ (n.own? sub).isSome ∨ Covers l name sub := by
  simp only [Covers, List.mem_cons, or_and_right, exists_or, exists_eq_left]

/-- A destination without fixed indices has every cell. -/
theorem Node.Views.filled {n : Node} {stored : Shape} (h : n.Views stored) (hfixed : n.fixed = []) :
    Filled [n] n.name stored := by
  intro sub hsub
  obtain ⟨lead, hfwd, hlead⟩ := h
  rw [hfixed] at hlead
  cases hlead
  obtain ⟨idx, hidx, hin⟩ := hsub.forward hfwd
  refine ⟨n, .head _, rfl, Option.isSome_iff_exists.mpr ⟨idx, Node.own?_eq_some_iff.2 ⟨?_, hin⟩⟩⟩
  rw [Node.subscript, List.map_id, hfixed, List.nil_append, backward_eq_some_iff]
  exact hidx

/-- A destination has some cell when its extents are positive. -/
theorem Node.Views.exists_covers {n : Node} {stored : Shape} (h : n.Views stored)
    (hpos : ∀ d ∈ n.shape, 0 < d) : ∃ sub, Covers [n] n.name sub := by
  obtain ⟨idx, hidx⟩ := exists_inRange hpos
  obtain ⟨sub, hsub, -⟩ := h.subscript_inRange hidx
  exact ⟨sub, n, .head _, rfl, Option.isSome_iff_exists.mpr
    ⟨idx, Node.own?_eq_some_iff.2 ⟨hsub, hidx⟩⟩⟩

/-! ## Classes of nodes -/

/-- A class of nodes for expressions. It says which shapes nodes may have and which indices of a
tensor that is read may be fixed. Swapping axes does not leave the class, and tensors may be read
whole. -/
structure NodeClass where
  Mem : Shape → Prop
  Fixes : List Int → Prop
  perm : ∀ {s t : Shape}, Mem s → t.Perm s → Mem t
  whole : Fixes []

namespace NodeClass

/-- The nodes of the class. -/
def Admits (N : NodeClass) (n : Node) : Prop :=
  N.Mem n.shape ∧ (n.kind = .identifier → N.Fixes n.fixed)

/-- No node of the class has a negative extent. -/
def Sized (N : NodeClass) : Prop := ∀ s, N.Mem s → ∀ d ∈ s, 0 ≤ d

/-- The axes of tensors that are read with fixed indices can be numbered by machine words. -/
def Numbered (N : NodeClass) : Prop :=
  ∀ stored fixed, N.Mem stored → N.Fixes fixed → fixed = [] ∨ stored.length < 0x8000000000000000

variable {N : NodeClass}

theorem Sized.admits (h : N.Sized) : ∀ n, N.Admits n → ∀ d ∈ n.shape, 0 ≤ d :=
  fun n hn => h n.shape hn.1

theorem admits_operands : ∀ (n : Node) (ops : List NodeId),
    N.Admits n → N.Admits { n with operands := ops } := fun _ _ h => h

end NodeClass

/-- A class of shapes. All extents are positive, and swapping axes does not leave the class. -/
structure ShapeClass where
  Mem : Shape → Prop
  pos : ∀ {s : Shape}, Mem s → ∀ d ∈ s, 0 < d
  perm : ∀ {s t : Shape}, Mem s → t.Perm s → Mem t

namespace ShapeClass

/-- The nodes that have a shape of the class and read tensors whole. -/
@[reducible] def nodes (K : ShapeClass) : NodeClass where
  Mem := K.Mem
  Fixes fixed := fixed = []
  perm := K.perm
  whole := rfl

instance : Coe ShapeClass NodeClass := ⟨nodes⟩

abbrev Admits (K : ShapeClass) : Node → Prop := K.nodes.Admits

theorem numbered (K : ShapeClass) : K.nodes.Numbered := fun _ _ _ h => .inl h

theorem sized (K : ShapeClass) : K.nodes.Sized := fun _ h d hd => Int.le_of_lt (K.pos h d hd)

variable {K : ShapeClass}

theorem admits_pos : ∀ n, K.Admits n → ∀ d ∈ n.shape, 0 < d := fun _ h => K.pos h.1

theorem admits_nonneg : ∀ n, K.Admits n → ∀ d ∈ n.shape, 0 ≤ d := K.sized.admits

end ShapeClass

theorem Tree.Typed.mem {N : NodeClass} {S : Shapes} {t : Tree} (h : t.Typed N.Admits S) :
    N.Mem t.shape := by
  cases h with
  | node hC _ _ => exact hC.1

/-! ## Clauses and their meaning -/

/-- An assignment with the node of its destination and the tree of its expression. -/
structure Clause where
  dst : NodeId
  target : Node
  tree : Tree
  /-- The axis that is bound to the loop shared by all assignments. -/
  fuseAxis : Option Nat := none
deriving Inhabited

namespace Clause

/-- The assignment of a clause. -/
def assignment (c : Clause) : Assignment :=
  { dst := c.dst, expr := c.tree.root, fuseAxis := c.fuseAxis }

/-- The numbers of all nodes of a clause. -/
def ids (c : Clause) : List NodeId := c.dst :: c.tree.ids

/-- The name of the tensor that a clause writes. -/
abbrev name (c : Clause) : String := c.target.name

/-- The clause does not read its own destination. -/
def ReadsOthers (c : Clause) : Prop := c.name ∉ c.tree.names

variable {α : Type} [Scalar α]

/-- Gives every cell of the destination the value of the tree. -/
def step (c : Clause) (σ : Cells α) : Cells α := fun name sub =>
  if name = c.name then
    match c.target.own? sub with
    | some idx => c.tree.eval σ idx
    | none => σ name sub
  else σ name sub

theorem step_of_ne {c : Clause} {name : String} (h : name ≠ c.name) (σ : Cells α) :
    c.step σ name = σ name := by
  funext sub
  rw [step, if_neg h]

theorem step_own {c : Clause} {sub idx : List Int} (h : c.target.own? sub = some idx)
    (σ : Cells α) : c.step σ c.name sub = c.tree.eval σ idx := by
  rw [step, if_pos rfl, h]

theorem step_not_own {c : Clause} {sub : List Int} (h : c.target.own? sub = none)
    (σ : Cells α) (name : String) : c.step σ name sub = σ name sub := by
  rw [step, h]
  split <;> rfl

/-- What a clause does at one cell: only the value of its tree matters. -/
theorem step_congr {c c' : Clause} {σ σ' : Cells α} {name : String} {sub : List Int}
    (htarget : c'.target = c.target) (hcell : σ name sub = σ' name sub)
    (heval : ∀ idx, name = c.name → c.target.own? sub = some idx →
      c.tree.eval σ idx = c'.tree.eval σ' idx) : c.step σ name sub = c'.step σ' name sub := by
  unfold step Clause.name
  rw [htarget]
  split
  · rename_i hname
    cases hown : c.target.own? sub with
    | none => exact hcell
    | some idx => exact heval idx hname hown
  · exact hcell

end Clause

variable {α : Type} [Scalar α]

/-- Runs clauses from first to last. -/
def runClauses (cs : List Clause) (σ : Cells α) : Cells α := cs.foldl (fun σ c => c.step σ) σ

@[simp] theorem runClauses_nil (σ : Cells α) : runClauses [] σ = σ := rfl

@[simp] theorem runClauses_cons (c : Clause) (cs : List Clause) (σ : Cells α) :
    runClauses (c :: cs) σ = runClauses cs (c.step σ) := rfl

@[simp] theorem runClauses_append (cs ds : List Clause) (σ : Cells α) :
    runClauses (cs ++ ds) σ = runClauses ds (runClauses cs σ) := List.foldl_append

/-- A tensor that no clause writes is unchanged. -/
theorem runClauses_of_notMem {cs : List Clause} {name : String}
    (h : ∀ c ∈ cs, c.name ≠ name) (σ : Cells α) : runClauses cs σ name = σ name := by
  induction cs generalizing σ with
  | nil => rfl
  | cons c cs ih =>
    rw [runClauses_cons, ih (fun d hd => h d (List.mem_cons_of_mem _ hd)),
      Clause.step_of_ne (h c (.head _)).symm]

/-- A cell that belongs to no destination is unchanged. -/
theorem runClauses_not_own {cs : List Clause} {name : String} {sub : List Int}
    (h : ∀ c ∈ cs, c.name = name → c.target.own? sub = none) (σ : Cells α) :
    runClauses cs σ name sub = σ name sub := by
  induction cs generalizing σ with
  | nil => rfl
  | cons c cs ih =>
    rw [runClauses_cons, ih fun d hd => h d (List.mem_cons_of_mem _ hd)]
    by_cases hname : c.name = name
    · exact Clause.step_not_own (h c (.head _) hname) σ name
    · rw [Clause.step_of_ne (Ne.symm hname)]

/-- Cells of tensors that no clause reads do not matter for the others. -/
theorem runClauses_agree_cells {P : String → List Int → Prop} {cs : List Clause}
    (hreads : ∀ c ∈ cs, ∀ name ∈ c.tree.names, ∀ sub, P name sub) {σ σ' : Cells α}
    (h : ∀ name sub, P name sub → σ name sub = σ' name sub) :
    ∀ name sub, P name sub → runClauses cs σ name sub = runClauses cs σ' name sub := by
  induction cs generalizing σ σ' with
  | nil => exact h
  | cons c cs ih =>
    refine ih (fun d hd => hreads d (List.mem_cons_of_mem _ hd)) fun name sub hcell => ?_
    refine Clause.step_congr rfl (h name sub hcell) fun idx _ _ => ?_
    rw [Tree.eval_congr_names fun n hn => funext fun sub => h n sub (hreads c (.head _) n hn sub)]

/-- Tensors that no clause reads do not matter for the others. -/
theorem runClauses_agree {hidden : List String} {cs : List Clause}
    (hreads : ∀ c ∈ cs, ∀ name ∈ c.tree.names, name ∉ hidden) {σ σ' : Cells α}
    (h : ∀ name, name ∉ hidden → σ name = σ' name) :
    ∀ name, name ∉ hidden → runClauses cs σ name = runClauses cs σ' name := by
  intro name hname
  funext sub
  exact runClauses_agree_cells (P := fun name _ => name ∉ hidden)
    (fun c hc n hn _ => hreads c hc n hn) (fun n sub hn => congrFun (h n hn) sub) name sub hname

/-- A part of a program can be replaced by one that does the same up to tensors that are not read
afterwards. -/
theorem runClauses_replace (hidden : List String) {l mid mid' r : List Clause}
    (hmid : ∀ (σ : Cells α) name, name ∉ hidden → runClauses mid' σ name = runClauses mid σ name)
    (hreads : ∀ c ∈ r, ∀ name ∈ c.tree.names, name ∉ hidden) (σ : Cells α) :
    ∀ name, name ∉ hidden →
      runClauses (l ++ (mid' ++ r)) σ name = runClauses (l ++ (mid ++ r)) σ name := by
  simp only [runClauses_append]
  exact runClauses_agree hreads (hmid _)

/-! ## The clauses of a program -/

/-- The assignments of a program are the given clauses. -/
structure Program.Laid (p : Program) (cs : List Clause) : Prop where
  assignments : p.assignments = cs.map Clause.assignment
  target : ∀ c ∈ cs, p.nodes[c.dst]? = some c.target
  stored : ∀ c ∈ cs, c.tree.StoredIn p.nodes

/-- Every node has one place. -/
def Unshared (cs : List Clause) : Prop := (cs.flatMap Clause.ids).Nodup

namespace Program.Laid

variable {p p' : Program} {cs : List Clause}

theorem dst?_eq (h : p.Laid cs) {c : Clause} (hc : c ∈ cs) :
    p.dst? c.assignment = some c.target := h.target c hc

theorem tree_eq (h : p.Laid cs) {c : Clause} (hc : c ∈ cs) : p.tree c.tree.root = c.tree :=
  (h.stored c hc).tree_eq

theorem lt_size (h : p.Laid cs) {c : Clause} (hc : c ∈ cs) {i : NodeId} (hi : i ∈ c.ids) :
    i < p.nodes.size := by
  rcases List.mem_cons.mp hi with rfl | hi
  · exact (Array.getElem?_eq_some_iff.mp (h.target c hc)).1
  · exact (h.stored c hc).lt_size i hi

theorem notMem_ids (h : p.Laid cs) {i : NodeId} (hi : p.nodes.size ≤ i) :
    i ∉ cs.flatMap Clause.ids := by
  intro hmem
  obtain ⟨c, hc, hic⟩ := List.mem_flatMap.mp hmem
  exact Nat.not_lt.mpr hi (h.lt_size hc hic)

/-- A clause stays where it is when its nodes are unchanged. -/
theorem frame (h : p.Laid cs) {c : Clause} (hc : c ∈ cs)
    (heq : ∀ i ∈ c.ids, p'.nodes[i]? = p.nodes[i]?) :
    p'.nodes[c.dst]? = some c.target ∧ c.tree.StoredIn p'.nodes :=
  ⟨(heq _ (.head _)).trans (h.target c hc),
    (h.stored c hc).frame fun i hi => heq i (List.mem_cons_of_mem _ hi)⟩

/-- Replacing some clauses: the nodes of the others are unchanged. -/
theorem replace {l mid r : List Clause} (h : p.Laid (l ++ (mid ++ r))) (mid' : List Clause)
    (hass : p'.assignments = (l ++ (mid' ++ r)).map Clause.assignment)
    (hframe : ∀ d ∈ l ++ r, ∀ i ∈ d.ids, p'.nodes[i]? = p.nodes[i]?)
    (hmid : ∀ c ∈ mid', p'.nodes[c.dst]? = some c.target ∧ c.tree.StoredIn p'.nodes) :
    p'.Laid (l ++ (mid' ++ r)) := by
  have hall : ∀ c ∈ l ++ (mid' ++ r),
      p'.nodes[c.dst]? = some c.target ∧ c.tree.StoredIn p'.nodes := by
    intro c hc
    simp only [List.mem_append] at hc
    rcases hc with hc | hc | hc
    · exact h.frame (by simp [hc]) (hframe c (by simp [hc]))
    · exact hmid c hc
    · exact h.frame (by simp [hc]) (hframe c (by simp [hc]))
  exact ⟨hass, fun c hc => (hall c hc).1, fun c hc => (hall c hc).2⟩

end Program.Laid

namespace Unshared

variable {l r : List Clause} {c d : Clause}

theorem nodup (h : Unshared (l ++ c :: r)) : c.ids.Nodup := by
  rw [Unshared, List.flatMap_append, List.flatMap_cons] at h
  exact (List.nodup_append.mp (List.nodup_append.mp h).2.1).1

theorem notMem (h : Unshared (l ++ c :: r)) (hd : d ∈ l ++ r) {i : NodeId} (hi : i ∈ d.ids) :
    i ∉ c.ids := by
  rw [Unshared, List.flatMap_append, List.flatMap_cons, List.nodup_append] at h
  obtain ⟨-, hcr, hl⟩ := h
  intro hc
  rcases List.mem_append.mp hd with hd | hd
  · exact hl i (List.mem_flatMap.mpr ⟨d, hd, hi⟩) i (List.mem_append_left _ hc) rfl
  · exact (List.nodup_append.mp hcr).2.2 i hc i (List.mem_flatMap.mpr ⟨d, hd, hi⟩) rfl

end Unshared

/-! ## Invariants -/

/-- The stored shapes of the tensors. -/
def Symbols.shapes (find : Symbols) : Shapes := fun name => (find name).map (·.shape)

theorem Symbols.shapes_eq {find : Symbols} {name : String} {s : Symbol}
    (h : find name = some s) : find.shapes name = some s.shape := by
  rw [shapes, h]
  rfl

/-- A clause writes a part of a declared tensor that is not an input, and its tree has the shape of
that part. -/
structure Clause.Fits (N : NodeClass) (find : Symbols) (c : Clause) : Prop where
  kind : c.target.kind = .identifier
  declared : ∃ s, find c.name = some s ∧ c.target.Views s.shape ∧ s.role ≠ .input
  shape : c.tree.shape = c.target.shape
  typed : c.tree.Typed N.Admits find.shapes

/-- Every tensor that is read is an input or was written whole before. -/
def Ordered (find : Symbols) : List Node → List Clause → Prop
  | _, [] => True
  | written, c :: cs =>
    (∀ name ∈ c.tree.names, ∀ s, find name = some s → s.role.isInput ∨ Filled written name s.shape) ∧
      Ordered find (c.target :: written) cs

/-- Two destinations that are parts of one synthesized tensor fix different indices. -/
def Apart (find : Symbols) (n m : Node) : Prop :=
  n.name = m.name → ∀ s, find n.name = some s → s.role.isSynthesized →
    ¬ n.fixed <+: m.fixed ∧ ¬ m.fixed <+: n.fixed

/-- The invariants of the clauses of a program. Names of synthesized tensors can be told from texts
with fixed indices. -/
structure Sound (K : ShapeClass) (find : Symbols) (cs : List Clause) : Prop where
  symbols : ∀ name s, find name = some s → K.Mem s.shape
  plain : ∀ name s, find name = some s → s.role.isSynthesized → '\x7b' ∉ name.toList
  fits : ∀ c ∈ cs, c.Fits K find
  ordered : Ordered find [] cs
  filled : ∀ c ∈ cs, ∀ s, find c.name = some s → Filled (cs.map Clause.target) c.name s.shape
  defined : ∀ name s, find name = some s → s.role.isSynthesized → ∃ c ∈ cs, c.name = name
  apart : (cs.map Clause.target).Pairwise (Apart find)

theorem Ordered.mono {find : Symbols} {cs : List Clause} {written written' : List Node}
    (h : Ordered find written cs)
    (hsub : ∀ name sub, Covers written name sub → Covers written' name sub) :
    Ordered find written' cs := by
  induction cs generalizing written written' with
  | nil => trivial
  | cons c cs ih =>
    refine ⟨fun name hname s hs => (h.1 name hname s hs).imp_right fun hfill sub hin =>
      hsub name sub (hfill sub hin), ih h.2 fun name sub => ?_⟩
    rw [covers_cons, covers_cons]
    exact Or.imp_right (hsub name sub)

theorem ordered_append {find : Symbols} {l r : List Clause} {written : List Node} :
    Ordered find written (l ++ r) ↔
      Ordered find written l ∧ Ordered find ((l.map Clause.target).reverse ++ written) r := by
  induction l generalizing written with
  | nil => simp [Ordered]
  | cons c l ih => simp [Ordered, ih, and_assoc]

/-- Symbols are kept when tensors are added. -/
def Symbols.Extends (find find' : Symbols) : Prop := ∀ name s, find name = some s → find' name = some s

theorem Symbols.Extends.shapes_eq {find find' : Symbols} (h : find.Extends find') {name : String}
    {stored : Shape} (hs : find.shapes name = some stored) :
    find'.shapes name = find.shapes name := by
  rw [hs]
  obtain ⟨s, hfind, rfl⟩ := Option.map_eq_some_iff.mp hs
  exact Symbols.shapes_eq (h name s hfind)

theorem Tree.Typed.extend {C : Node → Prop} {find find' : Symbols} {t : Tree}
    (h : t.Typed C find.shapes) (hext : find.Extends find') : t.Typed C find'.shapes :=
  h.mono fun name hname => by
    obtain ⟨stored, hs⟩ := h.mem_shapes name hname
    exact hext.shapes_eq hs

theorem Clause.Fits.extend {N : NodeClass} {find find' : Symbols} {c : Clause}
    (h : c.Fits N find) (hext : find.Extends find') : c.Fits N find' := by
  obtain ⟨s, hs, hv, hr⟩ := h.declared
  exact ⟨h.kind, ⟨s, hext _ _ hs, hv, hr⟩, h.shape, h.typed.extend hext⟩

theorem Clause.Fits.declared_name {N : NodeClass} {find : Symbols} {c : Clause}
    (h : c.Fits N find) {name : String} (hname : name ∈ c.tree.names) :
    ∃ s, find name = some s := by
  obtain ⟨stored, hs⟩ := h.typed.mem_shapes name hname
  obtain ⟨s, hs, -⟩ := Option.map_eq_some_iff.mp hs
  exact ⟨s, hs⟩

theorem Clause.Fits.exists_covers {K : ShapeClass} {find : Symbols} {c : Clause}
    (h : c.Fits K find) : ∃ sub, Covers [c.target] c.name sub := by
  obtain ⟨s, -, hviews, -⟩ := h.declared
  exact hviews.exists_covers (h.shape ▸ K.pos h.typed.mem)

theorem Ordered.extend {N : NodeClass} {find find' : Symbols} {cs : List Clause}
    {written : List Node} (h : Ordered find written cs) (hfits : ∀ c ∈ cs, c.Fits N find)
    (hext : find.Extends find') : Ordered find' written cs := by
  induction cs generalizing written with
  | nil => trivial
  | cons c cs ih =>
    refine ⟨fun name hname s hs => ?_, ih h.2 fun d hd => hfits d (List.mem_cons_of_mem _ hd)⟩
    obtain ⟨s', hs'⟩ := (hfits c (.head _)).declared_name hname
    rw [hext _ _ hs'] at hs
    cases hs
    exact h.1 name hname s hs'

theorem Apart.extend {find find' : Symbols} {n m : Node} (h : Apart find n m)
    (hn : ∃ s, find n.name = some s) (hext : find.Extends find') : Apart find' n m := by
  intro hname s hs hsynth
  obtain ⟨s', hs'⟩ := hn
  rw [hext _ _ hs'] at hs
  cases hs
  exact h hname s hs' hsynth

theorem Apart.symm {find : Symbols} {n m : Node} (h : Apart find n m) : Apart find m n := by
  intro hname s hs hsynth
  exact (h hname.symm s (hname ▸ hs) hsynth).symm

/-- A destination that fixes more indices than another is apart from what the other is apart from. -/
theorem Apart.of_leads {find : Symbols} {n n' m : Node} (h : Apart find n m)
    (hname : n.name = n'.name) (hfix : n.fixed <+: n'.fixed) : Apart find n' m := by
  intro hname' s hs hsynth
  obtain ⟨h₁, h₂⟩ := h (hname.trans hname') s (hname ▸ hs) hsynth
  refine ⟨fun hp => h₁ (hfix.trans hp), fun hp => ?_⟩
  exact (List.prefix_or_prefix_of_prefix hfix hp).elim h₁ h₂

/-- What must be shown of clauses that take the place of others in a program. The clauses around them, and
the symbols known before, stay as they are. -/
structure Replacement (K : ShapeClass) (find find' : Symbols) (l mid mid' r : List Clause) : Prop where
  sound : Sound K find (l ++ (mid ++ r))
  extended : find.Extends find'
  new : ∀ name s, find' name = some s → find name = some s ∨
    find name = none ∧ K.Mem s.shape ∧ Filled (mid'.map Clause.target) name s.shape ∧ '\x7b' ∉ name.toList
  fits : ∀ c ∈ mid', c.Fits K find'
  ordered : Ordered find' (l.map Clause.target).reverse mid'
  cover : ∀ name sub, Covers (mid.map Clause.target) name sub → Covers (mid'.map Clause.target) name sub
  apart : (mid'.map Clause.target).Pairwise (Apart find')
  leads : ∀ c' ∈ mid', find c'.name = none ∨
    ∃ c ∈ mid, c.name = c'.name ∧ c.target.fixed <+: c'.target.fixed

namespace Replacement

variable {K : ShapeClass} {find find' : Symbols} {l mid mid' r : List Clause}
variable (h : Replacement K find find' l mid mid' r)
include h

theorem fits_around : ∀ c ∈ l ++ r, c.Fits K find := fun c hc =>
  h.sound.fits c (by simp only [List.mem_append] at hc ⊢; tauto)

theorem fits_all : ∀ c ∈ l ++ (mid' ++ r), c.Fits K find' := by
  intro c hc
  simp only [List.mem_append] at hc
  rcases hc with hc | hc | hc
  · exact (h.fits_around c (by simp [hc])).extend h.extended
  · exact h.fits c hc
  · exact (h.fits_around c (by simp [hc])).extend h.extended

theorem covers_all (name : String) (sub : List Int) :
    Covers ((l ++ (mid ++ r)).map Clause.target) name sub →
      Covers ((l ++ (mid' ++ r)).map Clause.target) name sub := by
  simp only [List.map_append, covers_append]
  exact Or.imp_right (Or.imp_left (h.cover name sub))

/-- A tensor that was written still is. -/
theorem exists_writer {c : Clause} (hc : c ∈ l ++ (mid ++ r)) : ∃ c' ∈ l ++ (mid' ++ r), c'.name = c.name := by
  obtain ⟨sub, hsub⟩ := (h.sound.fits c hc).exists_covers
  have hold : Covers ((l ++ (mid ++ r)).map Clause.target) c.name sub :=
    hsub.mono (List.cons_subset.mpr ⟨List.mem_map_of_mem hc, List.nil_subset _⟩)
  obtain ⟨n, hn, hname, -⟩ := h.covers_all c.name sub hold
  obtain ⟨c', hc', rfl⟩ := List.mem_map.mp hn
  exact ⟨c', hc', hname⟩

/-- A tensor that is written and was declared was written. -/
theorem exists_written {c : Clause} (hc : c ∈ l ++ (mid' ++ r)) {s : Symbol} (hs : find c.name = some s) :
    ∃ d ∈ l ++ (mid ++ r), d.name = c.name := by
  simp only [List.mem_append] at hc
  rcases hc with hc | hc | hc
  · exact ⟨c, by simp [hc], rfl⟩
  · rcases h.leads c hc with hnone | ⟨d, hd, hname, -⟩
    · rw [hs] at hnone
      cases hnone
    · exact ⟨d, by simp [hd], hname⟩
  · exact ⟨c, by simp [hc], rfl⟩

theorem filled {c : Clause} (hc : c ∈ l ++ (mid' ++ r)) {s : Symbol} (hs : find' c.name = some s) :
    Filled ((l ++ (mid' ++ r)).map Clause.target) c.name s.shape := by
  intro sub hsub
  rcases h.new c.name s hs with hs | ⟨-, -, hfill, -⟩
  · obtain ⟨d, hd, hname⟩ := h.exists_written hc hs
    exact h.covers_all _ sub (hname ▸ h.sound.filled d hd s (hname ▸ hs) sub hsub)
  · exact (hfill sub hsub).mono (by simp)

theorem ordered_all : Ordered find' [] (l ++ (mid' ++ r)) := by
  obtain ⟨hol, hor⟩ := ordered_append.1 h.sound.ordered
  obtain ⟨-, hor⟩ := ordered_append.1 hor
  rw [List.append_nil] at hor
  refine ordered_append.2 ⟨hol.extend (fun c hc => h.fits_around c (List.mem_append_left _ hc)) h.extended, ?_⟩
  rw [List.append_nil]
  refine ordered_append.2 ⟨h.ordered, (hor.extend (fun c hc => h.fits_around c (List.mem_append_right _ hc))
    h.extended).mono fun name sub => ?_⟩
  rw [covers_append, covers_append]
  refine Or.imp_left fun hmid => ?_
  exact (h.cover name sub (hmid.mono (by simp))).mono (by simp)

theorem defined {name : String} {s : Symbol} (hs : find' name = some s) (hsynth : s.role.isSynthesized) :
    ∃ c ∈ l ++ (mid' ++ r), c.name = name := by
  rcases h.new name s hs with hs | ⟨-, hmem, hfill, -⟩
  · obtain ⟨c, hc, rfl⟩ := h.sound.defined name s hs hsynth
    exact h.exists_writer hc
  · obtain ⟨sub, hsub⟩ := exists_inRange (K.pos hmem)
    obtain ⟨n, hn, hname, -⟩ := hfill sub hsub
    obtain ⟨c, hc, rfl⟩ := List.mem_map.mp hn
    exact ⟨c, by simp [hc], hname⟩

theorem apart_extend {c : Clause} (hc : c ∈ l ++ r) {n : Node} (hapart : Apart find c.target n) :
    Apart find' c.target n := by
  obtain ⟨s, hs, -⟩ := (h.fits_around c hc).declared
  exact hapart.extend ⟨s, hs⟩ h.extended

/-- The clauses that were there are apart from one another. -/
theorem apart_old : (l.map Clause.target ++ (mid.map Clause.target ++ r.map Clause.target)).Pairwise (Apart find) := by
  rw [← List.map_append, ← List.map_append]
  exact h.sound.apart

/-- A new clause is apart from the clauses around. -/
theorem apart_around {c' d : Clause} (hc' : c' ∈ mid') (hd : d ∈ l ++ r) : Apart find' c'.target d.target := by
  obtain ⟨-, hmr, hlmr⟩ := List.pairwise_append.mp h.apart_old
  obtain ⟨-, -, hmr⟩ := List.pairwise_append.mp hmr
  rcases h.leads c' hc' with hnone | ⟨c, hc, hname, hfix⟩
  · intro hname
    obtain ⟨s, hs, -⟩ := (h.fits_around d hd).declared
    rw [Clause.name, ← hname, hnone] at hs
    cases hs
  · have hold : Apart find c.target d.target := by
      rcases List.mem_append.mp hd with hd | hd
      · exact (hlmr _ (List.mem_map_of_mem hd) _ (List.mem_append_left _ (List.mem_map_of_mem hc))).symm
      · exact hmr _ (List.mem_map_of_mem hc) _ (List.mem_map_of_mem hd)
    obtain ⟨s, hs, -⟩ := (h.sound.fits c (by simp [hc])).declared
    exact (hold.extend ⟨s, hs⟩ h.extended).of_leads hname hfix

theorem apart_all : ((l ++ (mid' ++ r)).map Clause.target).Pairwise (Apart find') := by
  obtain ⟨hl, hmr, hlmr⟩ := List.pairwise_append.mp h.apart_old
  obtain ⟨-, hr, -⟩ := List.pairwise_append.mp hmr
  rw [List.map_append, List.map_append]
  refine List.pairwise_append.mpr ⟨?left, List.pairwise_append.mpr ⟨h.apart, ?right, ?later⟩, ?earlier⟩
  case left =>
    refine hl.imp_of_mem fun hn _ hapart => ?_
    obtain ⟨c, hc, rfl⟩ := List.mem_map.mp hn
    exact h.apart_extend (List.mem_append_left _ hc) hapart
  case right =>
    refine hr.imp_of_mem fun hn _ hapart => ?_
    obtain ⟨c, hc, rfl⟩ := List.mem_map.mp hn
    exact h.apart_extend (List.mem_append_right _ hc) hapart
  case later =>
    simp only [List.mem_map]
    rintro _ ⟨c, hc, rfl⟩ _ ⟨d, hd, rfl⟩
    exact h.apart_around hc (List.mem_append_right _ hd)
  case earlier =>
    simp only [List.mem_append, List.mem_map]
    rintro _ ⟨c, hc, rfl⟩ _ (⟨d, hd, rfl⟩ | ⟨d, hd, rfl⟩)
    · exact (h.apart_around hd (List.mem_append_left _ hc)).symm
    · exact h.apart_extend (List.mem_append_left _ hc) (hlmr _ (List.mem_map_of_mem hc) _
        (List.mem_append_right _ (List.mem_map_of_mem hd)))

/-- A program is sound after its clauses have been replaced. -/
theorem result : Sound K find' (l ++ (mid' ++ r)) where
  symbols name s hs := (h.new name s hs).elim (h.sound.symbols name s) fun hnew => hnew.2.1
  plain name s hs hsynth :=
    (h.new name s hs).elim (fun hs => h.sound.plain name s hs hsynth) fun hnew => hnew.2.2.2
  fits := h.fits_all
  ordered := h.ordered_all
  filled _ hc _ := h.filled hc
  defined _ _ := h.defined
  apart := h.apart_all

end Replacement

end LoopNest
