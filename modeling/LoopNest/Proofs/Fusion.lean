import LoopNest.Proofs.Index.Leading
import LoopNest.Proofs.Pass.Fusing
import LoopNest.Proofs.Slices
import LoopNest.Proofs.Stores

/-!
# Elements in the order of a shared loop

Clauses that have an axis in front (`Leads`) may be bound to a shared loop, whatever they read: the
loop computes the same elements, slice by slice, and elements of different slices commute
(`Fusible.commute`). Subscripts need not be in range for this. When every element can be computed, the
positions that a clause uses are there for all values of the shared loop, so they lie one in each
slice of the memory (`Fusible.exists_leading`). When some element cannot be computed, both orders of
the elements stop.
-/

namespace LoopNest

/-! ## Runs as folds -/

namespace Program

variable {α ζ τ : Type} [Scalar α] {p : Program} {S : Shapes} {run : Memory α → τ → Option (Memory α)}

/-- Assignments that are folds over elements, one after the other. -/
theorem runAssignments_map {f : Int} {zs : List ζ} {A : ζ → Assignment} {L : ζ → List τ}
    (hrun : ∀ z ∈ zs, ∀ mem, mem.Formed S → p.runAssignment (A z) f mem = orFault ((L z).foldlM run mem))
    (hP : ∀ z ∈ zs, ∀ x ∈ L z, ∀ mem, mem.Formed S → ∀ mem', run mem x = some mem' → mem'.Formed S)
    (i : Nat) {mem : Memory α} (hmem : mem.Formed S) :
    p.runAssignments f i (zs.map A) mem = orFault ((zs.flatMap L).foldlM run mem) := by
  induction zs generalizing i mem with
  | nil => rfl
  | cons z zs ih =>
    rw [List.map_cons, runAssignments, hrun z (.head _) mem hmem, List.flatMap_cons, List.foldlM_append,
      Option.bind_eq_bind]
    cases hfold : (L z).foldlM run mem with
    | none => rfl
    | some mem' =>
      refine ih (fun z hz => hrun z (List.mem_cons_of_mem _ hz))
        (fun z hz => hP z (List.mem_cons_of_mem _ hz)) (i + 1) ?_
      exact foldlM_preserves (Memory.Formed S) hmem (fun mem x hx => hP z (.head _) x hx mem) hfold

/-- Slices that are folds over elements, one after the other. -/
theorem runFused_eq {L : Int → List τ} {n : Nat} {f : Int}
    (hrun : ∀ g, f ≤ g → g < f + n → ∀ mem, mem.Formed S →
      p.runAssignments g 0 p.assignments mem = orFault ((L g).foldlM run mem))
    (hP : ∀ g, ∀ x ∈ L g, ∀ mem, mem.Formed S → ∀ mem', run mem x = some mem' → mem'.Formed S)
    {mem : Memory α} (hmem : mem.Formed S) :
    p.runFused n f mem = orFault (((List.range n).flatMap fun (i : Nat) => L (f + i)).foldlM run mem) := by
  induction n generalizing f mem with
  | zero => rfl
  | succ n ih =>
    have hnext : ∀ i : Nat, f + ↑i.succ = f + 1 + i := by omega
    rw [runFused, hrun f (Int.le_refl f) (by omega) mem hmem, List.range_succ_eq_map, List.flatMap_cons,
      List.flatMap_map, List.foldlM_append, Option.bind_eq_bind, Int.natCast_zero, Int.add_zero]
    cases hfold : (L f).foldlM run mem with
    | none => rfl
    | some mem' =>
      simp only [hnext]
      refine ih (fun g lo hi => hrun g (by omega) (by omega)) ?_
      exact foldlM_preserves (Memory.Formed S) hmem (fun mem x hx => hP f x hx mem) hfold

end Program

/-! ## Names and values -/

namespace IndexName

variable {idx : List Int} {κ : Nat → Int} {k : Nat}

theorem count_results_le (n : Nat) (i : IndexName) : (results n).count i ≤ 1 :=
  List.nodup_iff_count_le_one.mp (List.nodup_range.map fun _ _ => IndexName.result.inj) i

theorem value_set_self (hk : k < idx.length) (f : Int) : value (idx.set k f) κ (.result k) = f := by
  rw [value, List.getElem?_set_self hk, Option.getD_some]

theorem value_set_of_ne {i : IndexName} (hi : i ≠ .result k) (f : Int) :
    value (idx.set k f) κ i = value idx κ i := by
  cases i with
  | result axis => rw [value, value, List.getElem?_set_ne fun h => hi (congrArg result h.symm)]
  | sum t => rfl
  | fixed v => rfl

end IndexName

theorem exists_tail_of_count {τ : Type _} [DecidableEq τ] {l : List τ} {x : τ} (hhead : l.head? = some x)
    (hcount : l.count x ≤ 1) : ∃ tail, l = x :: tail ∧ x ∉ tail := by
  cases l with
  | nil => cases hhead
  | cons y tail =>
    cases hhead
    rw [List.count_cons_self] at hcount
    exact ⟨tail, rfl, List.count_eq_zero.mp (by omega)⟩

namespace Pass

variable {N : NodeClass} {p : Program} {find : Symbols} {cs : List Clause} {extent : Int} {axes : List Nat}

/-- A clause that has an axis in front uses it once in each subscript of a written tensor. -/
theorem Leads.exists_tail {c : Clause} {k : Nat} {written : List String}
    (h : Leads find written extent c k) (hfits : c.Fits N find)
    (hstack : ∀ n ∈ c.tree.labels, n.kind ≠ .stack) :
    ∃ write, c.target.subscript .fixed (IndexName.results c.target.shape.length) = some write ∧
      ∀ b ∈ placesOf .fixed c.target c.tree (IndexName.results c.target.shape.length) write,
        (∃ stored, find.shapes b.1 = some stored ∧ b.2.length = stored.length) ∧
          (b.1 ∈ written → ∃ tail, b.2 = .result k :: tail ∧ .result k ∉ tail) := by
  have hlen : (IndexName.results c.target.shape.length).length = c.target.shape.length := by
    simp [IndexName.results]
  have hindexed : c.tree.Indexed N.Admits find.shapes (IndexName.results c.target.shape.length) :=
    ⟨hfits.typed, hstack, hlen.trans (congrArg List.length hfits.shape.symm)⟩
  obtain ⟨s, hs, hviews, -⟩ := hfits.declared
  obtain ⟨write, hwrite, hfirst⟩ := h.write
  obtain ⟨reads, next, hreads, hall⟩ := h.reads
  refine ⟨write, hwrite, ?_⟩
  rw [placesOf, List.forall_mem_cons, List.forall_mem_map]
  refine ⟨⟨⟨s.shape, Symbols.shapes_eq hs, hviews.length_subscript hlen hwrite⟩, fun _ => ?_⟩,
    fun l hl => ⟨hindexed.loads_declared 0 l hl, fun hname => ?_⟩⟩
  · have hnot : IndexName.result k ∉ c.target.fixed.map IndexName.fixed := by simp
    refine exists_tail_of_count hfirst ?_
    rw [(perm_forward hwrite).count_eq, List.count_append, List.count_eq_zero_of_not_mem hnot,
      Nat.zero_add]
    exact IndexName.count_results_le _ _
  · -- the load comes from a read with the axis in front
    obtain ⟨acc, hacc, hname', hrel⟩ := hindexed.exists_read
      (R := fun i j => ∀ a, i = .result a → j = .result a) (fun _ _ h => by cases h)
      (fun _ _ _ h => by cases h) (List.forall₂_same.mpr fun _ _ _ h => h) hreads 0 l hl
    have hhead := hall acc hacc (hname'.symm ▸ hname)
    refine exists_tail_of_count ?_ (Nat.le_trans
      (hindexed.loads_count (fun _ h => by cases h) 0 l hl) (IndexName.count_results_le _ _))
    generalize acc.index = is at hhead hrel
    show l.sub.head? = _
    generalize l.sub = js at hrel ⊢
    cases hrel with
    | nil => cases hhead
    | cons hij _ =>
      cases hhead
      exact congrArg some (hij k rfl)

/-! ## Elements -/

/-- An element that is computed by a clause, with the axis of the clause that is bound to the shared
loop. -/
structure BoundElement where
  clause : Clause
  axis : Nat
  index : List Int

namespace BoundElement

variable (x : BoundElement)

/-- The value of the shared loop at which the element is computed. -/
def slice : Int := (x.index[x.axis]?).getD 0

/-- The subscript of the element in its tensor. -/
def sub : List Int := (x.clause.target.subscript id x.index).getD []

/-- The places that the computation of the element accesses. -/
def places : List (String × List Int) := placesOf id x.clause.target x.clause.tree x.index x.sub

/-- All that the computation of the element accesses is there. -/
def Allocated (S : Shapes) : Prop := ∀ b ∈ x.places, (Event.load b.1 b.2).Allocated S

/-- Computes and stores the element. -/
def run {α : Type} [Scalar α] (mem : Memory α) : Option (Memory α) :=
  Program.runElement x.clause.target x.clause.tree x.index mem

end BoundElement

/-- The elements of a clause in the order of its loops. -/
def elementsOf (p : Program) (c : Clause) (k : Nat) : List BoundElement :=
  (visited c.target.shape ((p.loopOrder c.assignment).getD [])
    (List.replicate c.target.shape.rank 0)).map (BoundElement.mk c k)

/-- The elements of clauses, clause by clause. -/
def elements (p : Program) (cs : List Clause) (axes : List Nat) : List BoundElement :=
  (cs.zip axes).flatMap fun z => elementsOf p z.1 z.2

/-- The elements that are computed at a value of the shared loop. -/
def sliceAt (f : Int) (l : List BoundElement) : List BoundElement := l.filter fun x => x.slice = f

/-- Computes elements one after the other. -/
def runElements {α : Type} [Scalar α] (l : List BoundElement) (mem : Memory α) : Option (Memory α) :=
  l.foldlM (fun mem x => x.run mem) mem

/-- Clauses with axes by which they can be bound to a shared loop. -/
structure Fusible (N : NodeClass) (p : Program) (cs : List Clause) (extent : Int) (axes : List Nat) :
    Prop where
  laid : p.Laid cs
  fits : ∀ c ∈ cs, c.Fits N p.find
  unstacked : ∀ c ∈ cs, ∀ n ∈ c.tree.labels, n.kind ≠ .stack
  loops : ∀ c ∈ cs, c.fuseAxis = none
  nonneg : 0 ≤ extent
  leads : List.Forall₂ (Leads p.find (cs.map Clause.name) extent) cs axes
  /-- Element counts do not come close to the largest word. -/
  small : ∀ c ∈ cs, ∀ s, p.find c.name = some s → s.shape.size < 0x4000000000000000

namespace Fusible

variable (h : Fusible N p cs extent axes)
include h

theorem leads_of_mem {c : Clause} {k : Nat} (hz : (c, k) ∈ cs.zip axes) :
    c ∈ cs ∧ Leads p.find (cs.map Clause.name) extent c k :=
  ⟨(List.of_mem_zip hz).1, (List.forall₂_iff_zip.mp h.leads).2 hz⟩

theorem axis_lt {c : Clause} {k : Nat} (hz : (c, k) ∈ cs.zip axes) : k < c.target.shape.length :=
  (List.getElem?_eq_some_iff.mp (h.leads_of_mem hz).2.axis).1

theorem loopOrder {c : Clause} (hc : c ∈ cs) : ∃ order, p.loopOrder c.assignment = some order ∧
    order.Nodup ∧ ∀ k, k ∈ order ↔ k < c.target.shape.length := by
  obtain ⟨order, horder, hnd, hmem⟩ := (h.laid.places hc).loopOrder_spec (h.fits c hc)
  refine ⟨order, horder, hnd, fun k => (hmem k).trans (and_iff_left ?_)⟩
  rw [show c.assignment.fuseAxis = none from h.loops c hc]
  exact Option.some_ne_none k

/-- The indices of the elements of a clause. -/
theorem mem_elementsOf {c : Clause} {k : Nat} (hz : (c, k) ∈ cs.zip axes) {x : BoundElement}
    (hx : x ∈ elementsOf p c k) : x.clause = c ∧ x.axis = k ∧
      x.index.length = c.target.shape.length ∧ x.index[k]? = some x.slice ∧
      0 ≤ x.slice ∧ x.slice < extent ∧
      ∀ f, 0 ≤ f → f < extent → { x with index := x.index.set k f } ∈ elementsOf p c k := by
  obtain ⟨hc, hleads⟩ := h.leads_of_mem hz
  obtain ⟨order, horder, hnd, hmem⟩ := h.loopOrder hc
  obtain ⟨idx, hidx, rfl⟩ := List.mem_map.mp hx
  rw [horder, Option.getD_some] at hidx
  have hk := (hmem k).mpr (h.axis_lt hz)
  have hlen : k < (List.replicate c.target.shape.rank (0 : Int)).length := by
    simpa using h.axis_lt hz
  obtain ⟨f, hf, lo, hi⟩ := visited_coordinate hnd hk hlen hleads.axis h.nonneg hidx
  have hslice : (BoundElement.mk c k idx).slice = f := by rw [BoundElement.slice, hf, Option.getD_some]
  refine ⟨rfl, rfl, ?_, hslice ▸ hf, hslice ▸ lo, hslice ▸ hi, fun g lo hi => ?_⟩
  · exact (length_of_mem_visited hidx).trans (by simp)
  · rw [elementsOf, horder, Option.getD_some]
    exact List.mem_map_of_mem (set_mem_visited hnd hk hlen hleads.axis h.nonneg hidx lo hi)

section

variable {x y : BoundElement} (hx : x ∈ elements p cs axes)
include hx

theorem mem_elements : (x.clause, x.axis) ∈ cs.zip axes ∧ x ∈ elementsOf p x.clause x.axis ∧
    x.index.length = x.clause.target.shape.length ∧ x.index[x.axis]? = some x.slice ∧
    0 ≤ x.slice ∧ x.slice < extent ∧
    ∀ f, 0 ≤ f → f < extent → { x with index := x.index.set x.axis f } ∈ elements p cs axes := by
  obtain ⟨⟨c, k⟩, hz, hx⟩ := List.mem_flatMap.mp hx
  obtain ⟨rfl, rfl, hlen, hslice, lo, hi, hset⟩ := h.mem_elementsOf hz hx
  exact ⟨hz, hx, hlen, hslice, lo, hi, fun f lo hi => List.mem_flatMap.mpr ⟨_, hz, hset f lo hi⟩⟩

theorem bounds : 0 ≤ x.slice ∧ x.slice < extent := by
  obtain ⟨-, -, -, -, lo, hi, -⟩ := h.mem_elements hx
  exact ⟨lo, hi⟩

theorem name_mem : x.clause.name ∈ cs.map Clause.name :=
  List.mem_map_of_mem (h.leads_of_mem (h.mem_elements hx).1).1

/-- What an element of a clause accesses is what the clause accesses by name. -/
theorem places_eq {write : List IndexName}
    (hwrite : x.clause.target.subscript .fixed
      (IndexName.results x.clause.target.shape.length) = some write) :
    x.clause.target.subscript id x.index = some x.sub ∧
    x.places = (placesOf .fixed x.clause.target x.clause.tree
      (IndexName.results x.clause.target.shape.length) write).map
        fun b => (b.1, b.2.map (IndexName.value x.index 0)) := by
  obtain ⟨hz, -, hlen, -⟩ := h.mem_elements hx
  have hc := (h.leads_of_mem hz).1
  have hsub := Node.subscript_map (IndexName.value x.index 0) hwrite
  have hindexed : x.clause.tree.Indexed N.Admits p.find.shapes
      (IndexName.results x.clause.target.shape.length) :=
    ⟨(h.fits _ hc).typed, h.unstacked _ hc, by rw [(h.fits _ hc).shape]; simp [IndexName.results]⟩
  have hmap := hindexed.placesOf_map .fixed x.clause.target write (IndexName.value x.index 0)
  rw [← hlen, IndexName.map_value_results] at hsub hmap
  have heq : x.sub = write.map (IndexName.value x.index 0) := by
    rw [BoundElement.sub, show x.clause.target.subscript id x.index = _ from hsub, Option.getD_some]
  exact ⟨heq ▸ hsub, by rw [← hlen, BoundElement.places, heq]; exact hmap⟩

theorem element : Element N.Admits p.find.shapes x.clause.target x.clause.tree x.index x.sub := by
  obtain ⟨hz, -, hlen, -⟩ := h.mem_elements hx
  obtain ⟨hc, hleads⟩ := h.leads_of_mem hz
  obtain ⟨s, hs, -⟩ := (h.fits _ hc).declared
  obtain ⟨write, hwrite, -⟩ := hleads.write
  exact ⟨⟨_, Symbols.shapes_eq hs⟩, (h.places_eq hx hwrite).1, (h.fits _ hc).typed, h.unstacked _ hc,
    hlen.trans (congrArg List.length (h.fits _ hc).shape.symm)⟩

/-- When all elements can be computed, a place in a written tensor has its slice as its first
coordinate, and is there at all values of the shared loop. -/
theorem exists_leading (hall : ∀ x ∈ elements p cs axes, x.Allocated p.find.shapes)
    {b : String × List Int} (hb : b ∈ x.places) (hname : b.1 ∈ cs.map Clause.name) :
    ∃ tail rest, b.2 = x.slice :: tail ∧ p.find.shapes b.1 = some (extent :: rest) ∧
      tail.length = rest.length ∧
      ∀ f, 0 ≤ f → f < extent → (Event.load b.1 (f :: tail)).Allocated p.find.shapes := by
  obtain ⟨hz, -, hlen, hslice, -, -, hset⟩ := h.mem_elements hx
  obtain ⟨hc, hleads⟩ := h.leads_of_mem hz
  obtain ⟨write, hwrite, hplaces⟩ := hleads.exists_tail (h.fits _ hc) (h.unstacked _ hc)
  rw [(h.places_eq hx hwrite).2, List.mem_map] at hb
  obtain ⟨⟨name, l⟩, hb, rfl⟩ := hb
  obtain ⟨⟨stored, hstored, hlength⟩, htail⟩ := hplaces _ hb
  obtain ⟨tail, rfl, hnot⟩ := htail hname
  obtain ⟨d, hd, rfl⟩ := List.mem_map.mp hname
  obtain ⟨k, -, hleads'⟩ := forall₂_getElem? h.leads (List.mem_iff_getElem?.mp hd).choose_spec
  obtain ⟨s, rest, hs, hshape⟩ := hleads'.stored
  rw [Symbols.shapes_eq hs, hshape] at hstored
  cases hstored
  have hkey : IndexName.value x.index 0 (.result x.axis) = x.slice := rfl
  refine ⟨tail.map (IndexName.value x.index 0), rest, by rw [List.map_cons, hkey],
    by rw [Symbols.shapes_eq hs, hshape], by simpa using hlength, fun f lo hi => ?_⟩
  -- the same access of the element at another value of the loop
  have hat := hall _ (hset f lo hi) (d.name, f :: tail.map (IndexName.value x.index 0)) ?_
  · exact hat
  · rw [(h.places_eq (hset f lo hi) hwrite).2, List.mem_map]
    refine ⟨_, hb, ?_⟩
    show (_, (_ :: tail).map (IndexName.value (x.index.set x.axis f) 0)) = _
    rw [List.map_cons, IndexName.value_set_self (hlen ▸ h.axis_lt hz),
      List.map_congr_left fun i hi => IndexName.value_set_of_ne (ne_of_mem_of_not_mem hi hnot) f]

section

variable (hy : y ∈ elements p cs axes) (hne : x.slice ≠ y.slice)
include hy hne

/-- An element does not access what an element of another slice computes. -/
theorem separate (hall : ∀ x ∈ elements p cs axes, x.Allocated p.find.shapes) :
    ∀ b ∈ x.places, Separate p.find.shapes b (y.clause.name, y.sub) := by
  intro b hb heq
  have hname := h.name_mem hy
  obtain ⟨is, rest, his, hstored, hi, hall₁⟩ :=
    h.exists_leading hx hall hb (show b.1 ∈ _ from heq ▸ hname)
  obtain ⟨js, rest', hjs, hstored', hj, hall₂⟩ :=
    h.exists_leading hy hall (b := (y.clause.name, y.sub)) (.head _) hname
  rw [heq, show p.find.shapes y.clause.name = _ from hstored'] at hstored
  cases hstored
  refine ⟨_, heq ▸ hstored', ?_⟩
  obtain ⟨s, hs, hshape⟩ : ∃ s, p.find y.clause.name = some s ∧ s.shape = extent :: rest :=
    Option.map_eq_some_iff.mp hstored'
  have hsmall := h.small _ (h.leads_of_mem (h.mem_elements hy).1).1 s hs
  have hposition : ∀ {name : String} {is : List Int}, name = y.clause.name →
      (∀ f, 0 ≤ f → f < extent → (Event.load name (f :: is)).Allocated p.find.shapes) →
      ∀ f, 0 ≤ f → f < extent → ∃ o, rowMajor (extent :: rest) (f :: is) = some o ∧ 0 ≤ o ∧
        o < Shape.size (extent :: rest) := by
    rintro _ is rfl hload f lo hi
    obtain ⟨stored, o, hS, ho⟩ := hload f lo hi
    cases hS.symm.trans hstored'
    exact ⟨o, ho⟩
  rw [his, hjs]
  exact rowMajor_ne_of_leading hi hj (hshape ▸ hsmall) (hposition heq hall₁) (hposition rfl hall₂)
    (h.bounds hx) (h.bounds hy) hne

/-- Elements of different slices commute. -/
theorem commute (hall : ∀ x ∈ elements p cs axes, x.Allocated p.find.shapes) {α : Type} [Scalar α] :
    CommuteOn (Memory.Formed p.find.shapes) (x.run (α := α)) y.run :=
  (h.element hx).runElement_comm (h.element hy) (h.separate hx hy hne hall)
    (h.separate hy hx (Ne.symm hne) hall)

end

end

/-! ## Orders of the elements -/

variable {α : Type} [Scalar α] {mem : Memory α}

/-- Whether a list of elements can be computed depends on the elements alone. -/
theorem isSome_run_iff {l : List BoundElement} (hl : ∀ x ∈ l, x ∈ elements p cs axes)
    (hmem : mem.Formed p.find.shapes) : (runElements l mem).isSome ↔
      ∀ x ∈ l, x.Allocated p.find.shapes :=
  isSome_foldlM_iff (Memory.Formed p.find.shapes) hmem fun _ x hx hmem =>
    ⟨(h.element (hl x hx)).runElement_isSome_iff hmem,
      fun _ hrun => (h.element (hl x hx)).formed hmem hrun⟩

/-- The elements can be computed slice by slice. -/
theorem run_slices (hmem : mem.Formed p.find.shapes) :
    runElements ((List.range extent.toNat).flatMap fun (i : Nat) => sliceAt i (elements p cs axes)) mem =
      runElements (elements p cs axes) mem := by
  have hnonneg := h.nonneg
  by_cases hall : ∀ x ∈ elements p cs axes, x.Allocated p.find.shapes
  · refine (foldlM_regroup (P := Memory.Formed p.find.shapes)
      (fun x hx mem hmem mem' hrun => (h.element hx).formed hmem hrun) BoundElement.slice
      (fun x hx y hy hne => h.commute hx hy hne hall) (fun x hx => ?_) hmem).symm
    have := h.bounds hx
    omega
  · -- some element cannot be computed, in any order
    have hslices : ∀ x, x ∈ ((List.range extent.toNat).flatMap fun (i : Nat) =>
        sliceAt i (elements p cs axes)) ↔ x ∈ elements p cs axes := by
      intro x
      simp only [sliceAt, List.mem_flatMap, List.mem_range, List.mem_filter, decide_eq_true_eq]
      refine ⟨fun ⟨_, _, hx, _⟩ => hx, fun hx => ?_⟩
      have := h.bounds hx
      exact ⟨x.slice.toNat, by omega, hx, by omega⟩
    have hnone : ∀ {l : List BoundElement}, (∀ x, x ∈ l ↔ x ∈ elements p cs axes) →
        runElements l mem = none := by
      intro l hl
      rw [← Option.not_isSome_iff_eq_none, h.isSome_run_iff (fun x hx => (hl x).mp hx) hmem]
      exact fun hl' => hall fun x hx => hl' x ((hl x).mpr hx)
    rw [hnone hslices, hnone fun x => Iff.rfl]

/-- A clause that is not bound computes its elements. -/
theorem runAssignment_eq {z : Clause × Nat} (hz : z ∈ cs.zip axes) (f : Int)
    (hmem : mem.Formed p.find.shapes) : p.runAssignment z.1.assignment f mem =
      orFault (runElements (elementsOf p z.1 z.2) mem) := by
  obtain ⟨c, k⟩ := z
  obtain ⟨hc, -⟩ := h.leads_of_mem hz
  obtain ⟨order, horder, -, hmem_order⟩ := h.loopOrder hc
  obtain ⟨s, hs, -⟩ := (h.fits c hc).declared
  have hstart : startIndex c.target.shape.rank c.assignment.fuseAxis f =
      some (List.replicate c.target.shape.rank 0) := by
    rw [show c.assignment.fuseAxis = none from h.loops c hc]
    rfl
  rw [(h.laid.places hc).runAssignment_visited horder (fun k hk => (hmem_order k).mp hk) hstart
    (hmem.contains (Symbols.shapes_eq hs)), elementsOf, horder, runElements, List.foldlM_map]
  rfl

/-- A clause that is bound to the shared loop computes the elements of one slice. -/
theorem runAssignment_shared_eq {z : Clause × Nat} (hz : z ∈ cs.zip axes) {f : Int} (lo : 0 ≤ f)
    (hi : f < extent) (hmem : mem.Formed p.find.shapes) :
    (shared p extent axes).runAssignment { z.1.assignment with fuseAxis := some z.2 } f mem =
      orFault (runElements (sliceAt f (elementsOf p z.1 z.2)) mem) := by
  obtain ⟨c, k⟩ := z
  obtain ⟨hc, hleads⟩ := h.leads_of_mem hz
  obtain ⟨order, horder, hnd, hmem_order⟩ := h.loopOrder hc
  obtain ⟨s, hs, -⟩ := (h.fits c hc).declared
  have hk := h.axis_lt hz
  have hplaces : (shared p extent axes).Places { c.assignment with fuseAxis := some k } c :=
    ⟨(h.laid.places hc).target, rfl, (h.laid.places hc).stored⟩
  have hbound : (shared p extent axes).loopOrder { c.assignment with fuseAxis := some k } =
      some (order.filter (· ≠ k)) := by
    have hnodes : (shared p extent axes).nodes = p.nodes := rfl
    rw [Program.loopOrder_bound (a := c.assignment) (h.loops c hc), Program.loopOrder_congr hnodes,
      horder, Option.map_some]
  have hstart : startIndex c.target.shape.rank (some k) f =
      some ((List.replicate c.target.shape.rank 0).set k f) := by
    simp only [startIndex, setAt?, List.length_replicate, Int.toNat_natCast]
    exact if_pos ⟨Int.natCast_nonneg k, by exact_mod_cast hk⟩
  have hslice : ∀ idx ∈ visited c.target.shape order (List.replicate c.target.shape.rank 0),
      (decide (idx[k]? = some f)) = decide ((BoundElement.mk c k idx).slice = f) := by
    intro idx hidx
    have helement : BoundElement.mk c k idx ∈ elementsOf p c k := by
      rw [elementsOf, horder, Option.getD_some]
      exact List.mem_map_of_mem hidx
    obtain ⟨-, -, -, hat, -⟩ := h.mem_elementsOf hz helement
    rw [show idx[k]? = some _ from hat, decide_eq_decide, Option.some.injEq]
  rw [hplaces.runAssignment_visited hbound
      (fun j hj => (hmem_order j).mp (List.mem_of_mem_filter hj)) hstart
      (hmem.contains (Symbols.shapes_eq hs)),
    ← filter_visited hnd ((hmem_order k).mpr hk) (by simpa using hk) hleads.axis lo hi,
    sliceAt, elementsOf, horder, Option.getD_some, List.filter_map, runElements, List.foldlM_map,
    List.filter_congr hslice]
  rfl

/-- Binding the clauses to the shared loop does not change what the program does. -/
theorem run_shared (hfusion : p.fusion = none) (hmem : mem.Formed p.find.shapes) :
    (shared p extent axes).run mem = p.run mem := by
  have hformed : ∀ x ∈ elements p cs axes, ∀ mem : Memory α, mem.Formed p.find.shapes → ∀ mem',
      x.run mem = some mem' → mem'.Formed p.find.shapes :=
    fun x hx mem hmem mem' hrun => (h.element hx).formed hmem hrun
  have hassignments : p.assignments = (cs.zip axes).map fun z => z.1.assignment := by
    rw [h.laid.assignments]
    conv_lhs => rw [← List.map_fst_zip (Nat.le_of_eq h.leads.length_eq), List.map_map]
    rfl
  have hbound : (shared p extent axes).assignments =
      (cs.zip axes).map fun z => { z.1.assignment with fuseAxis := some z.2 } := by
    rw [map_fst_boundTo h.laid, boundTo, List.map_map]
    rfl
  have hrun : p.run mem = orFault (runElements (elements p cs axes) mem) := by
    rw [Program.run, hfusion]
    exact hassignments ▸ Program.runAssignments_map (fun z hz mem hmem => h.runAssignment_eq hz (-1) hmem)
      (fun z hz x hx => hformed x (List.mem_flatMap.mpr ⟨z, hz, hx⟩)) 0 hmem
  rw [hrun, ← h.run_slices hmem]
  refine (Program.runFused_eq (L := fun f => sliceAt f (elements p cs axes))
    (fun f lo hi mem hmem => ?_) (fun f x hx => hformed x (List.mem_of_mem_filter hx)) hmem).trans ?_
  · have hnonneg := h.nonneg
    rw [hbound, Program.runAssignments_map
      (fun z hz mem hmem => h.runAssignment_shared_eq hz lo (by omega) hmem)
      (fun z hz x hx => hformed x (List.mem_flatMap.mpr ⟨z, hz, List.mem_of_mem_filter hx⟩)) 0 hmem,
      elements, sliceAt, List.filter_flatMap]
    rfl
  · simp only [Int.zero_add]
    rfl

end Fusible

end Pass

end LoopNest
