import LoopNest.Proofs.Code.Naming
import LoopNest.Proofs.Loops
import LoopNest.Proofs.Pass.Untransposing

/-!
# The code of an assignment

The loops of an assignment divide the indices of its result among themselves (`loop_completes`), and
the store in the innermost of them gives the element there the value of the tree (`store_completes`).
An element that the tree reads of its own destination is the one that is written, so no loop in between
has changed it.
-/

namespace LoopNest.C

variable {α : Type} [Scalar α] {layout : Layout} {S : Shapes} {c : Clause}

theorem loop_invariant {τ : Type} {P : Int → τ → Prop} {g : Int → τ → Option τ} {n : Nat} {i : Int}
    (step : ∀ j s, i ≤ j → j < i + n → P j s → ∃ s', g j s = some s' ∧ P (j + 1) s') {s : τ}
    (h : P i s) : ∃ s', loop n i g s = some s' ∧ P (i + n) s' := by
  induction n generalizing i s with
  | zero => exact ⟨s, rfl, by simpa using h⟩
  | succ n ih =>
    obtain ⟨s₁, hs₁, h₁⟩ := step i s (Int.le_refl _) (by omega) h
    obtain ⟨s₂, hs₂, h₂⟩ := ih (fun j s hlo hhi => step j s (by omega) (by omega)) h₁
    refine ⟨s₂, by rw [loop, hs₁]; exact hs₂, ?_⟩
    rwa [show i + ((n + 1 : Nat) : Int) = i + 1 + n by omega]

/-- The cell of the destination at an index of the result. -/
def Clause.Owns (c : Clause) (name : String) (sub idx : List Int) : Prop :=
  name = c.name ∧ c.target.own? sub = some idx

/-- The scene of an assignment: in a scope, the elements at the points are still to be computed, and
are as they were at the start, as are all other tensors. -/
def clauseScene (layout : Layout) (S : Shapes) (c : Clause) (R : Region) : Scene α where
  toRegion := R
  Inv σ env A := Addressable S ∧ Holds S A ∧ ∀ name stored sub, S name = some stored →
    InRange stored sub → (∀ idx, Clause.Owns c name sub idx → R.At env idx) →
    cellsIn layout S A name sub = σ name sub
  Post σ env A A' := Holds S A' ∧ ∀ name stored sub, S name = some stored → InRange stored sub →
    (∀ idx, Clause.Owns c name sub idx → R.At env idx →
      cellsIn layout S A' name sub = c.tree.eval σ idx) ∧
    ((∀ idx, Clause.Owns c name sub idx → ¬ R.At env idx) →
      cellsIn layout S A' name sub = cellsIn layout S A name sub)

variable {R : Region}

theorem Clause.Owns.unique {name : String} {sub idx idx' : List Int} (h : Clause.Owns c name sub idx)
    (h' : Clause.Owns c name sub idx') : idx = idx' := by
  have heq := h.2.symm.trans h'.2
  cases heq
  rfl

/-- Running a loop whose index divides the points of a scope. -/
theorem loop_completes {name : String} {extent : Int} {f : Locals α} {σ : Cells α} {rest : List Step}
    (hextent : Addressable S → extent < 0x80000000)
    (hsplit : ∀ idx, R.At f.indices idx ↔ ∃ j, 0 ≤ j ∧ j < extent ∧ R.At ((name, j) :: f.indices) idx)
    (hdisjoint : ∀ j j' idx, R.At ((name, j) :: f.indices) idx → R.At ((name, j') :: f.indices) idx → j = j')
    (hpoint : ∃ pt, R.At f.indices pt)
    (hrest : ∀ j, 0 ≤ j → j < extent → (clauseScene layout S c R).Completes σ rest
      { f with indices := (name, j) :: f.indices }) :
    (clauseScene layout S c R).Completes σ (.enter name extent :: rest) f := by
  rintro A ⟨haddressable, hholds, hcells⟩
  obtain ⟨pt, hpt⟩ := hpoint
  obtain ⟨j₀, hlo₀, hhi₀, -⟩ := (hsplit pt).mp hpt
  have hint : int? extent = some extent := int?_eq (by omega) (hextent haddressable)
  -- the cells at the values of the index that have been visited are computed, the others untouched
  obtain ⟨A', hloop, hholds', hcells'⟩ := loop_invariant (n := extent.toNat) (i := 0) (s := A)
    (g := fun j A => Stmt.runAll id { f with indices := (name, j) :: f.indices } A (nest rest))
    (P := fun j A' => Holds S A' ∧ ∀ name' stored sub, S name' = some stored → InRange stored sub →
      (∀ idx, Clause.Owns c name' sub idx → (∃ i, 0 ≤ i ∧ i < j ∧ R.At ((name, i) :: f.indices) idx) →
        cellsIn layout S A' name' sub = c.tree.eval σ idx) ∧
      ((∀ idx, Clause.Owns c name' sub idx → ¬ ∃ i, 0 ≤ i ∧ i < j ∧ R.At ((name, i) :: f.indices) idx) →
        cellsIn layout S A' name' sub = cellsIn layout S A name' sub))
    (by
      rintro j A₁ hlo hhi ⟨hholds₁, hcells₁⟩
      obtain ⟨A₂, hrun, hholds₂, hcells₂⟩ := hrest j hlo (by omega) A₁
        ⟨haddressable, hholds₁, fun name' stored sub hS hsub hat => by
          rw [(hcells₁ name' stored sub hS hsub).2 fun idx hown => ?_]
          · exact hcells name' stored sub hS hsub fun idx hown =>
              (hsplit idx).mpr ⟨j, hlo, by omega, hat idx hown⟩
          · rintro ⟨i, -, hij, hi⟩
            have := hdisjoint i j idx hi (hat idx hown)
            omega⟩
      refine ⟨A₂, hrun, hholds₂, fun name' stored sub hS hsub => ⟨fun idx hown => ?_, fun hnot => ?_⟩⟩
      · rintro ⟨i, hi₀, hij, hi⟩
        obtain ⟨hnew, hold⟩ := hcells₂ name' stored sub hS hsub
        by_cases heq : i = j
        · subst heq
          exact hnew idx hown hi
        · rw [hold fun idx' hown' hj => ?_]
          · exact (hcells₁ name' stored sub hS hsub).1 idx hown ⟨i, hi₀, by omega, hi⟩
          · obtain rfl := hown.unique hown'
            exact heq (hdisjoint i j idx hi hj)
      · rw [(hcells₂ name' stored sub hS hsub).2 fun idx hown hj => hnot idx hown ⟨j, hlo, by omega, hj⟩]
        exact (hcells₁ name' stored sub hS hsub).2 fun idx hown ⟨i, hi₀, hij, hi⟩ =>
          hnot idx hown ⟨i, hi₀, by omega, hi⟩)
    ⟨hholds, fun name' stored sub _ _ => ⟨fun idx _ ⟨i, hlo, hhi, _⟩ => by omega, fun _ => rfl⟩⟩
  have htotal : (0 : Int) + (extent.toNat : Int) = extent := by omega
  rw [htotal] at hcells'
  refine ⟨A', runAll_loop hint hloop, hholds', fun name' stored sub hS hsub =>
    ⟨fun idx hown hat => ?_, fun hnot => ?_⟩⟩
  · exact (hcells' name' stored sub hS hsub).1 idx hown ((hsplit idx).mp hat)
  · exact (hcells' name' stored sub hS hsub).2 fun idx hown hi => hnot idx hown ((hsplit idx).mpr hi)

/-- The store of the value of the tree, in the innermost loop. -/
theorem store_completes {f : Locals α} {σ : Cells α} {e : Expr} {o : Offset} {stored : Shape}
    (hS : S c.name = some stored) (hrange : ∀ {env idx}, R.At env idx → InRange c.target.shape idx)
    (hpoint : ∃ pt, R.At f.indices pt)
    (hvalues : (clauseScene layout S c R).Values σ e (fun idx => c.tree.eval σ idx) f)
    (haddr : (clauseScene (α := α) layout S c R).Addresses layout o stored
      (fun idx => c.target.subscript id idx) f) :
    (clauseScene layout S c R).Completes σ [.put (.store ⟨c.name, o⟩ e)] f := by
  intro A hA
  obtain ⟨haddressable, hholds, -⟩ := id hA
  have hcount : Shape.count stored ≤ 0x80000000 := Int.le_of_lt (haddressable c.name stored hS).2
  obtain ⟨pt, hpt⟩ := hpoint
  obtain ⟨v, hv, hval⟩ := hvalues f A pt (.refl f) hA hpt
  obtain ⟨s, hs, hin, heval⟩ := haddr f pt (.refl f) hpt
  dsimp only at hs hval
  obtain ⟨A', hstore, hholds', -, hcells'⟩ := hholds.store_spec hS hin (heval hcount) v
  refine ⟨A', runAll_store hv hstore [], hholds', fun name sub' sub hS' hsub =>
    ⟨fun idx hown hat => ?_, fun hnot => ?_⟩⟩
  · -- the address is the same at all points that are left
    obtain ⟨s', hs', hin', heval'⟩ := haddr f idx (.refl f) hat
    obtain ⟨v', hv', hval'⟩ := hvalues f A idx (.refl f) hA hat
    dsimp only at hs' hval'
    obtain ⟨rfl, hown⟩ := hown
    rw [(Node.own?_eq_some_iff.mp hown).1] at hs'
    cases hs'
    have hsame : sub = s := by
      have heq := (heval hcount).symm.trans (heval' hcount)
      exact (position_inj hin hin' (Option.some.inj heq)).symm
    rw [hcells' c.name sub' sub hS' hsub, if_pos ⟨rfl, hsame⟩, hval', ← hv', hv]
  · rw [hcells' name sub' sub hS' hsub, if_neg]
    rintro ⟨rfl, rfl⟩
    exact hnot pt ⟨rfl, Node.own?_eq_some_iff.mpr ⟨hs, hrange hpt⟩⟩ hpt

/-! ## One loop for each axis -/

/-- The indices of a result at which the axes have the values of the open loops. -/
def AtLoops (names : List String) (shape : Shape) (env : Env) (idx : List Int) : Prop :=
  InRange shape idx ∧ ∀ (k : Nat) (name : String) (v : Int), names[k]? = some name →
    env.lookup name = some v → idx[k]? = some v

theorem AtLoops.narrow {names : List String} {shape : Shape} {env env' : Env} {idx : List Int}
    (h : ∀ name v, env.lookup name = some v → env'.lookup name = some v)
    (hidx : AtLoops names shape env' idx) : AtLoops names shape env idx :=
  ⟨hidx.1, fun k name v hk hv => hidx.2 k name v hk (h name v hv)⟩

/-- The region of loops over all axes. -/
def loopRegion (names : List String) (shape : Shape) : Region where
  At := AtLoops names shape
  narrow := AtLoops.narrow

/-- The scene of an assignment with a loop for each axis of its result. -/
def loopScene (layout : Layout) (S : Shapes) (c : Clause) (names : List String) : Scene α :=
  clauseScene layout S c (loopRegion names c.target.shape)

theorem loopScene_agrees (names : List String) :
    (loopScene (α := α) layout S c names).Agrees names :=
  fun _ _ _ _ _ hpt hk hv => hpt.2 _ _ _ hk hv

section

variable {names : List String} {shape : Shape} {env : Env} {k : Nat} {name : String} {idx : List Int}

theorem lookup_cons_of_none {name' : String} {j v : Int} (hnone : env.lookup name = none)
    (hv : env.lookup name' = some v) : List.lookup name' ((name, j) :: env) = some v := by
  have hne : name' ≠ name := by
    rintro rfl
    rw [hnone] at hv
    cases hv
  rwa [List.lookup_cons, beq_eq_false_iff_ne.mpr hne]

theorem atLoops_cons (hnd : names.Nodup) (hk : names[k]? = some name) (hnone : env.lookup name = none)
    {j : Int} : AtLoops names shape ((name, j) :: env) idx ↔
      AtLoops names shape env idx ∧ idx[k]? = some j := by
  constructor
  · intro h
    refine ⟨h.narrow fun name' v hv => lookup_cons_of_none hnone hv, h.2 k name j hk (by simp)⟩
  · rintro ⟨h, hj⟩
    refine ⟨h.1, fun k' name' v hk' hv => ?_⟩
    rw [List.lookup_cons] at hv
    by_cases hname : name' = name
    · subst hname
      obtain rfl : k = k' := (List.getElem?_inj (List.getElem?_eq_some_iff.mp hk).1 hnd).mp
        (hk.trans hk'.symm)
      simp only [beq_self_eq_true] at hv
      cases hv
      exact hj
    · rw [beq_eq_false_iff_ne.mpr hname] at hv
      exact h.2 k' name' v hk' hv

/-- The loop of an axis divides the indices that are left by their coordinates there. -/
theorem loopScene_divides (hnd : names.Nodup) {stored : Shape} (hS : S c.name = some stored)
    (hviews : c.target.Views stored) (hk : names[k]? = some name) {d : Int}
    (hd : c.target.shape[k]? = some d) :
    (loopScene (α := α) layout S c names).Divides name d := by
  intro f hnone hpoint
  have hcoord : ∀ {env idx}, AtLoops names c.target.shape env idx →
      ∃ j, idx[k]? = some j ∧ 0 ≤ j ∧ j < d := fun h =>
    forall₂_getElem? (inRange_iff_forall₂.mp h.1) hd
  refine ⟨fun j lo hi => ?_, fun σ rest hrest => loop_completes (fun haddressable => ?_) (fun idx => ?_)
    (fun j j' idx hj hj' => ?_) hpoint hrest⟩
  · -- another coordinate leads to another index that is left
    obtain ⟨pt, hpt⟩ := hpoint
    refine ⟨pt.set k j, (atLoops_cons hnd hk hnone).mpr ⟨⟨?_, fun k' name' v hk' hv => ?_⟩, ?_⟩⟩
    · exact hpt.1.set hd lo hi
    · have hne : k ≠ k' := by
        rintro rfl
        rw [hk] at hk'
        cases hk'
        rw [hnone] at hv
        cases hv
      rw [List.getElem?_set_ne hne]
      exact hpt.2 k' name' v hk' hv
    · obtain ⟨i, hi', -⟩ := hcoord hpt
      exact List.getElem?_set_self (List.getElem?_eq_some_iff.mp hi').1
  · obtain ⟨hpos, hcount⟩ := haddressable c.name stored hS
    exact Int.lt_of_le_of_lt (Shape.le_count hpos (hviews.mem_stored (List.mem_of_getElem? hd))) hcount
  · constructor
    · intro h
      obtain ⟨j, hj, lo, hi⟩ := hcoord h
      exact ⟨j, lo, hi, (atLoops_cons hnd hk hnone).mpr ⟨h, hj⟩⟩
    · rintro ⟨j, -, -, h⟩
      exact ((atLoops_cons hnd hk hnone).mp h).1
  · have heq := ((atLoops_cons hnd hk hnone).mp hj).2.symm.trans ((atLoops_cons hnd hk hnone).mp hj').2
    exact Option.some.inj heq

end

/-! ## Assignments without a contraction -/

/-- A clause that code can be written for, over tensors of the given shapes. -/
structure Codable (K : ShapeClass) (p : Program) (S : Shapes) (c : Clause) : Prop where
  direct : Pass.Direct c
  target : ∃ stored, S c.name = some stored ∧ c.target.Views stored
  shape : c.tree.shape = c.target.shape
  typed : c.tree.Typed K.Admits S
  stored : ∀ name stored, S name = some stored → (p.find name).map (·.shape) = some stored

namespace Codable

variable {K : ShapeClass} {p : Program} {names : List String} (h : Codable K p S c)
include h

theorem pos : ∀ d ∈ c.target.shape, 0 < d := h.shape ▸ K.pos h.typed.mem

theorem exists_at (names : List String) :
    ∃ env pt, (loopScene (α := α) layout S c names).At env pt := by
  obtain ⟨idx, hidx⟩ := exists_inRange h.pos
  exact ⟨[], idx, hidx, fun _ _ _ _ hv => by cases hv⟩

/-- Nodes below the root are neither contractions nor stacks nor transpositions. -/
theorem plain_operand {id : NodeId} {n : Node} {ts : List Tree} (htree : c.tree = .node id n ts)
    {t : Tree} (ht : t ∈ ts) : Plain t := by
  intro m hm
  have hinner : m ∈ c.tree.inner := by
    rw [htree, Tree.inner, List.mem_flatMap]
    exact ⟨t, ht, hm⟩
  have hrooted := h.direct.flat.rooted m hinner
  refine ⟨?_, ?_, h.direct.unturned m (Tree.inner_subset m hinner)⟩
  · intro hk
    rw [hk] at hrooted
    cases hrooted
  · intro hk
    rw [hk] at hrooted
    cases hrooted

theorem plain (hkind : c.tree.kind ≠ .contraction) : Plain c.tree := by
  intro m hm
  cases htree : c.tree with
  | missing =>
    rw [htree] at hm
    simp [Tree.labels] at hm
  | node id n ts =>
    rw [htree, Tree.labels_node, List.mem_cons, List.mem_flatMap] at hm
    rcases hm with rfl | ⟨t, ht, hm⟩
    · have hstack := h.direct.flat.unstacked
      rw [htree, Tree.kind_node] at hkind hstack
      exact ⟨hkind, hstack, h.direct.unturned m (by rw [htree]; simp)⟩
    · exact h.plain_operand htree ht m hm

/-- The elements that the tree reads at an index are as they were at the start. -/
theorem reads (R : Region) (hR : ∀ {env idx}, R.At env idx → InRange c.target.shape idx) :
    (clauseScene (α := α) layout S c R).Reads layout S c.tree.Touches := by
  rintro σ env A idx name stored sub ⟨haddressable, hholds, hcells⟩ hat htouch hS hsub
  obtain ⟨dst, hdst, hviews⟩ := h.target
  refine ⟨Int.le_of_lt (haddressable name stored hS).2, hholds,
    hcells name stored sub hS hsub fun idx' hown => ?_⟩
  obtain ⟨rfl, hown⟩ := hown
  have hidx := hR hat
  rw [h.direct.aligned.touches h.typed hdst hviews (.inl h.shape) (h.shape ▸ hidx) htouch] at hown
  cases hown
  exact hat

/-- The loops of the axes can be opened by a writer that knows their extents. -/
theorem reachable (hnd : names.Nodup) (hlen : names.length = c.target.shape.length) {w : Writer}
    (hflat : w.flat = none) (hw : ∀ (k : Nat) name d, names[k]? = some name →
      c.target.shape[k]? = some d → w.isOpen name = true ∨ w.extentOf name = d) :
    (loopScene (α := α) layout S c names).Reachable names w := by
  obtain ⟨stored, hS, hviews⟩ := h.target
  refine ⟨hflat, fun name hname => ?_⟩
  obtain ⟨k, hk⟩ := List.mem_iff_getElem?.mp hname
  have hlt : k < c.target.shape.length := hlen ▸ (List.getElem?_eq_some_iff.mp hk).1
  refine (hw k name _ hk (List.getElem?_eq_getElem hlt)).imp_right fun hext => ?_
  rw [hext]
  exact loopScene_divides hnd hS hviews hk (List.getElem?_eq_getElem hlt)

/-- The code of an assignment that is not a contraction computes its elements, when the reads of the
tree and the element that is written are coded correctly. -/
theorem body_spec {R : Region} (hkind : c.tree.kind ≠ .contraction)
    (hR : ∀ {env idx}, R.At env idx → InRange c.target.shape idx)
    (cd : Coding p layout (clauseScene (α := α) layout S c R)) {result : List Index}
    (hgood : cd.Good c.tree result fun idx => idx) {stored : Shape} (hS : S c.name = some stored)
    (htarget : ∀ w, cd.Ready w → ∃ o w', Emit.access p layout c.target result w = .ok (⟨c.name, o⟩, w') ∧
      (clauseScene (α := α) layout S c R).Emits w w' fun _ =>
        (clauseScene (α := α) layout S c R).Addresses layout o stored
          fun idx => c.target.subscript id idx)
    {w : Writer} (hw : cd.Ready w) :
    ∃ w', Emit.body p layout c.target c.tree result w = .ok ((), w') ∧
      (clauseScene (α := α) layout S c R).Writes w w' := by
  obtain ⟨e, w₁, hrun₁, he⟩ := cd.tree_spec hgood hw
  obtain ⟨o, w₂, hrun₂, ho⟩ := htarget w₁ (cd.ready hw he.grows)
  have hboth := he.trans ho fun σ f f' hwithin hvalues => hvalues.within _ hwithin
  have hrun : Emit.body p layout c.target c.tree result w =
      .ok ((), w₂.write (.store ⟨c.name, o⟩ e)) := by
    cases htree : c.tree with
    | missing =>
      have htyped := h.typed
      rw [htree] at htyped
      cases htyped
    | node root n ts =>
      rw [htree] at hrun₁ hkind
      rw [Tree.kind_node] at hkind
      rw [Emit.body, if_neg hkind, Emit.bind_ok hrun₁, Emit.bind_ok hrun₂]
      rfl
  refine ⟨_, hrun, hboth.writes (l := [.put (.store ⟨c.name, o⟩ e)]) (Writer.draft_write _ _)
    (Writer.grows_write w₂ _).temps (fun n v hmem => ?_) fun σ f hf hQ => ?_⟩
  · cases List.mem_singleton.mp hmem
  · exact store_completes hS hR hf.point hQ.1 hQ.2

/-- The element that is written. -/
theorem target_spec (hlen : names.length = c.target.shape.length) {w : Writer}
    (hw : (loopScene (α := α) layout S c names).Reachable names w) {stored : Shape}
    (hS : S c.name = some stored) (hviews : c.target.Views stored) :
    ∃ o w', Emit.access p layout c.target (names.map .loop) w = .ok (⟨c.name, o⟩, w') ∧
      ((loopScene (α := α) layout S c names).Emits w w' fun _ =>
        (loopScene (α := α) layout S c names).Addresses layout o stored
          fun idx => c.target.subscript id idx) ∧
      ∀ name, w'.isOpen name = true → w.isOpen name = true ∨ name ∈ names :=
  access_spec (loopScene_agrees names) (h.exists_at names) (h.stored c.name stored hS)
    hviews (fun _ _ hidx => ⟨stands_names names (hidx.1.length_eq.trans hlen.symm), hidx.1⟩) hw

/-- An assignment that is not a contraction, with a loop for each axis. -/
theorem statement_spec (hkind : c.tree.kind ≠ .contraction)
    (hlen : names.length = c.target.shape.length) {w : Writer}
    (hw : (loopScene (α := α) layout S c names).Reachable names w) :
    ∃ w', Emit.body p layout c.target c.tree (names.map .loop) w = .ok ((), w') ∧
      (loopScene (α := α) layout S c names).Writes w w' := by
  obtain ⟨stored, hS, hviews⟩ := h.target
  refine h.body_spec (R := loopRegion names c.target.shape) hkind (fun hat => hat.1)
    (namedCoding (loopScene_agrees names)
    (h.exists_at names) (h.reads (loopRegion names c.target.shape) fun hat => hat.1) h.stored)
    ⟨⟨K, h.typed⟩, h.plain hkind, fun _ _ hidx => ?_, fun _ _ hidx => ?_,
      fun _ _ _ _ _ htouch => htouch⟩ hS (fun w hw => ?_) hw
  · exact stands_names names (hidx.1.length_eq.trans hlen.symm)
  · exact h.shape ▸ hidx.1
  · obtain ⟨o, w', hrun, hemits, -⟩ := h.target_spec (α := α) hlen hw hS hviews
    exact ⟨o, w', hrun, hemits⟩

end Codable

end LoopNest.C
