import LoopNest.Proofs.Code.Statements
import LoopNest.Proofs.Tree.Loads

/-!
# Loops in the order of their first use

Writing the accesses of an expression opens the loops of their indices, each one when it is first used
(`tree_covered`). What is written does not depend on what code does: from a run of the writer that
succeeds it is read off which loops have been opened, in which order (`Opens`), and which elements are
read in them.
-/

namespace LoopNest.C

/-! ## Loops and stores -/

/-- Loops by their indices and extents, the outermost first. -/
abbrev Loops := List (String × Int)

mutual
/-- The stores to arrays in a statement, each with the loops around it. -/
def Stmt.stores (around : Loops) : Stmt → List (Loops × Stmt)
  | .loop index extent body => Stmt.storesAll (around ++ [(index, extent)]) body
  | .declare _ _ => []
  | .store dst value => [(around, .store dst value)]
  | .clear dst => [(around, .clear dst)]
  | .accumulate dst x y => [(around, .accumulate dst x y)]

/-- The stores to arrays in several statements, each with the loops around it. -/
def Stmt.storesAll (around : Loops) : List Stmt → List (Loops × Stmt)
  | [] => []
  | s :: ss => s.stores around ++ Stmt.storesAll around ss
end

mutual
/-- The loops in a statement, in the order in which they are opened. -/
def Stmt.loops : Stmt → Loops
  | .loop index extent body => (index, extent) :: Stmt.loopsAll body
  | .declare _ _ | .store _ _ | .clear _ | .accumulate _ _ _ => []

/-- The loops in several statements, in the order in which they are opened. -/
def Stmt.loopsAll : List Stmt → Loops
  | [] => []
  | s :: ss => s.loops ++ Stmt.loopsAll ss
end

/-- The elements that are read in an expression. -/
def Expr.elements : Expr → List Element
  | .literal _ | .temp _ => []
  | .element e => [e]
  | .arith _ x y => x.elements ++ y.elements

mutual
/-- The elements that are read by the expressions in a statement. -/
def Stmt.elements : Stmt → List Element
  | .loop _ _ body => Stmt.elementsAll body
  | .declare _ value | .store _ value => value.elements
  | .clear _ => []
  | .accumulate _ x y => x.elements ++ y.elements

/-- The elements that are read by the expressions in several statements. -/
def Stmt.elementsAll : List Stmt → List Element
  | [] => []
  | s :: ss => s.elements ++ Stmt.elementsAll ss
end

@[simp] theorem Stmt.loopsAll_append {ss ts : List Stmt} :
    Stmt.loopsAll (ss ++ ts) = Stmt.loopsAll ss ++ Stmt.loopsAll ts := by
  induction ss with
  | nil => rfl
  | cons s ss ih => rw [List.cons_append, loopsAll, loopsAll, ih, List.append_assoc]

/-! ## Steps -/

/-- The loops that steps enter. -/
def entered : List Step → Loops
  | [] => []
  | .put _ :: rest => entered rest
  | .enter index extent :: rest => (index, extent) :: entered rest

/-- The elements that are read in a step. -/
def Step.elements : Step → List Element
  | .put s => s.elements
  | .enter _ _ => []

/-- The only statements among steps are declarations of temporaries. -/
def Declares (steps : List Step) : Prop := ∀ s, .put s ∈ steps → ∃ n e, s = .declare n e

section

variable {around : Loops} {steps rest : List Step}

theorem entered_append : entered (steps ++ rest) = entered steps ++ entered rest := by
  induction steps with
  | nil => rfl
  | cons step steps ih =>
    cases step with
    | put s => exact ih
    | enter index extent => exact congrArg (_ :: ·) ih

theorem entered_enters (loops : Loops) : entered (enters loops) = loops := by
  induction loops with
  | nil => rfl
  | cons l loops ih => exact congrArg (l :: ·) ih

theorem declares_enters (loops : Loops) : Declares (enters loops) := by
  intro s hs
  obtain ⟨l, -, heq⟩ := List.mem_map.mp hs
  cases heq

theorem elements_enters (loops : Loops) : (enters loops).flatMap Step.elements = [] := by
  induction loops with
  | nil => rfl
  | cons l loops ih => exact ih

theorem Declares.append (h : Declares steps) (h' : Declares rest) : Declares (steps ++ rest) := by
  intro s hs
  exact (List.mem_append.mp hs).elim (h s) (h' s)

theorem elementsAll_nest : Stmt.elementsAll (nest steps) = steps.flatMap Step.elements := by
  induction steps with
  | nil => rfl
  | cons step steps ih =>
    rw [List.flatMap_cons, ← ih]
    cases step with
    | put s => rfl
    | enter index extent =>
      rw [nest, Stmt.elementsAll, Stmt.elementsAll, List.append_nil]
      rfl

/-- The stores that come after declarations stand in the loops that have been entered among these. -/
theorem storesAll_nest_append (h : Declares steps) :
    Stmt.storesAll around (nest (steps ++ rest)) = Stmt.storesAll (around ++ entered steps) (nest rest) := by
  induction steps generalizing around with
  | nil => rw [entered, List.append_nil, List.nil_append]
  | cons step steps ih =>
    have hrest : Declares steps := fun s hs => h s (.tail _ hs)
    cases step with
    | put s =>
      obtain ⟨n, e, rfl⟩ := h s (.head _)
      exact ih hrest
    | enter index extent =>
      rw [List.cons_append, nest, Stmt.storesAll, Stmt.storesAll, List.append_nil, Stmt.stores, ih hrest,
        entered, List.append_assoc, List.singleton_append]

theorem loopsAll_nest_append (h : Declares steps) :
    Stmt.loopsAll (nest (steps ++ rest)) = entered steps ++ Stmt.loopsAll (nest rest) := by
  induction steps with
  | nil => rfl
  | cons step steps ih =>
    have hrest := ih fun s hs => h s (.tail _ hs)
    cases step with
    | put s =>
      obtain ⟨n, e, rfl⟩ := h s (.head _)
      exact hrest
    | enter index extent =>
      rw [List.cons_append, nest, Stmt.loopsAll, Stmt.loopsAll, List.append_nil, Stmt.loops, hrest, entered,
        List.cons_append]

/-- The code of a store in nested loops. -/
theorem nest_store (h : Declares steps) (around : Loops) (e : Element) (v : Expr) :
    Stmt.storesAll around (nest (steps ++ [.put (.store e v)])) = [(around ++ entered steps, .store e v)] ∧
      Stmt.loopsAll (nest (steps ++ [.put (.store e v)])) = entered steps ∧
      Stmt.elementsAll (nest (steps ++ [.put (.store e v)])) =
        steps.flatMap Step.elements ++ v.elements := by
  refine ⟨?_, ?_, ?_⟩
  · rw [storesAll_nest_append h]
    rfl
  · rw [loopsAll_nest_append h]
    exact List.append_nil _
  · rw [elementsAll_nest, List.flatMap_append, List.flatMap_singleton]
    rfl

/-- The code of a sum: more loops are opened once the element has been cleared. -/
theorem nest_sum (h : Declares steps) {sums : Loops} {steps' : List Step} (h' : Declares steps')
    (hentered : entered steps' = []) (around : Loops) (e : Element) (x y : Expr) {all : List Step}
    (hall : all = steps ++ .put (.clear e) :: (enters sums ++ steps' ++ [.put (.accumulate e x y)])) :
    Stmt.storesAll around (nest all) = [(around ++ entered steps, .clear e),
        (around ++ entered steps ++ sums, .accumulate e x y)] ∧
      Stmt.loopsAll (nest all) = entered steps ++ sums ∧
      Stmt.elementsAll (nest all) = steps.flatMap Step.elements ++
        (steps'.flatMap Step.elements ++ (x.elements ++ y.elements)) := by
  have hinner : Declares (enters sums ++ steps') := (declares_enters sums).append h'
  have hsums : entered (enters sums ++ steps') = sums := by
    rw [entered_append, entered_enters, hentered, List.append_nil]
  subst hall
  refine ⟨?_, ?_, ?_⟩
  · rw [storesAll_nest_append h, nest, Stmt.storesAll, storesAll_nest_append hinner, hsums]
    rfl
  · rw [loopsAll_nest_append h, nest, Stmt.loopsAll, loopsAll_nest_append hinner, hsums]
    exact congrArg (entered steps ++ ·) (List.append_nil _)
  · rw [elementsAll_nest, List.flatMap_append, List.flatMap_cons, List.flatMap_append, List.flatMap_append,
      elements_enters, List.flatMap_singleton]
    rfl

end

/-! ## Opening loops -/

namespace Writer

variable {w w₁ w₂ : Writer} {names names' : List String} {els els' : List Element}

/-- The loops that are still to be opened for the indices of some names, in the order of their first
use. -/
def newLoops (w : Writer) (names : List String) : Loops :=
  (names.filter (!w.isOpen ·)).eraseDups.map fun name => (name, w.extentOf name)

theorem map_fst_newLoops (w : Writer) (names : List String) :
    (w.newLoops names).map (·.1) = (names.filter (!w.isOpen ·)).eraseDups := by
  rw [newLoops, List.map_map]
  exact List.map_id _

theorem newLoops_of_isOpen (h : ∀ name ∈ names, w.isOpen name = true) : w.newLoops names = [] := by
  have hnone : names.filter (!w.isOpen ·) = [] :=
    List.filter_eq_nil_iff.mpr fun name hname => by simp [h name hname]
  rw [newLoops, hnone]
  rfl

/-- Loops have been opened as the indices of some names were used, temporaries have been declared and
some elements have been read for these. -/
structure Opens (w w' : Writer) (names : List String) (els : List Element) : Prop where
  flat : w'.flat = w.flat
  nextIndex : w'.nextIndex = w.nextIndex
  nextSum : w'.nextSum = w.nextSum
  extents : ∀ name, w'.extentOf name = w.extentOf name
  opened : ∀ name, w'.isOpen name = true ↔ w.isOpen name = true ∨ name ∈ names
  steps : ∃ steps, w'.draft = w.draft.addAll steps ∧ Declares steps ∧ entered steps = w.newLoops names ∧
    steps.flatMap Step.elements = els

namespace Opens

theorem refl (w : Writer) : w.Opens w [] [] :=
  ⟨rfl, rfl, rfl, fun _ => rfl, fun _ => by simp, [], rfl, fun _ hs => (by cases hs), rfl, rfl⟩

theorem newLoops_append (h : w.Opens w₁ names els) :
    w.newLoops (names ++ names') = w.newLoops names ++ w₁.newLoops names' := by
  have hfilter : names'.filter (!w₁.isOpen ·) =
      (names'.filter (!w.isOpen ·)).removeAll (names.filter (!w.isOpen ·)) := by
    rw [List.removeAll, List.filter_filter]
    refine List.filter_congr fun name _ => ?_
    rw [Bool.eq_iff_iff, Bool.and_eq_true, Bool.not_eq_true', Bool.not_eq_true', Bool.not_eq_true',
      ← Bool.not_eq_true, ← Bool.not_eq_true, ← Bool.not_eq_true, h.opened, not_or, List.elem_iff,
      List.mem_filter]
    simp only [Bool.not_eq_true', not_and, Bool.not_eq_false]
    tauto
  rw [newLoops, newLoops, newLoops, List.filter_append, List.eraseDups_append, List.map_append, hfilter]
  simp only [h.extents]

/-- What is used later opens what has not been opened before. -/
theorem trans (h : w.Opens w₁ names els) (h' : w₁.Opens w₂ names' els') :
    w.Opens w₂ (names ++ names') (els ++ els') := by
  obtain ⟨steps, hdraft, hdecl, hentered, hels⟩ := h.steps
  obtain ⟨steps', hdraft', hdecl', hentered', hels'⟩ := h'.steps
  refine ⟨h'.flat.trans h.flat, h'.nextIndex.trans h.nextIndex, h'.nextSum.trans h.nextSum,
    fun name => (h'.extents name).trans (h.extents name), fun name => ?_, steps ++ steps', ?_,
    hdecl.append hdecl', ?_, ?_⟩
  · rw [h'.opened, h.opened, List.mem_append, or_assoc]
  · rw [hdraft', hdraft, Draft.addAll_append]
  · rw [entered_append, hentered, hentered', h.newLoops_append]
  · rw [List.flatMap_append, hels, hels']

/-- The index of an open loop may be used at any time. -/
theorem of_isOpen {name : String} (h : w.Opens w₁ names els) (hopen : w.isOpen name = true) :
    w.Opens w₁ (name :: names) els := by
  obtain ⟨steps, hdraft, hdecl, hentered, hels⟩ := h.steps
  refine ⟨h.flat, h.nextIndex, h.nextSum, h.extents, fun other => ?_, steps, hdraft, hdecl, ?_, hels⟩
  · rw [h.opened, List.mem_cons, or_left_comm]
    refine (or_iff_right_of_imp ?_).symm
    rintro rfl
    exact .inl hopen
  · rw [hentered, newLoops, newLoops, List.filter_cons, if_neg (by simp [hopen])]

/-- Using the same indices again opens no loops. -/
theorem absorb (h : w.Opens w₁ (names ++ names') els) (hsub : names' ⊆ names) : w.Opens w₁ names els := by
  obtain ⟨steps, hdraft, hdecl, hentered, hels⟩ := h.steps
  refine ⟨h.flat, h.nextIndex, h.nextSum, h.extents, fun name => ?_, steps, hdraft, hdecl, ?_, hels⟩
  · rw [h.opened, List.mem_append, or_iff_left_of_imp (@hsub name)]
  · have hnone : (names'.filter (!w.isOpen ·)).removeAll (names.filter (!w.isOpen ·)) = [] := by
      refine List.filter_eq_nil_iff.mpr fun name hname => ?_
      obtain ⟨hmem, hclosed⟩ := List.mem_filter.mp hname
      rw [Bool.not_eq_true', Bool.not_eq_false, List.elem_iff]
      exact List.mem_filter.mpr ⟨hsub hmem, hclosed⟩
    rw [hentered, newLoops, newLoops, List.filter_append, List.eraseDups_append, hnone, List.eraseDups_nil,
      List.append_nil]

/-- Once all loops are open, no others are opened. -/
theorem of_forall_isOpen (h : w.Opens w₁ names els) (hopen : ∀ name ∈ names, w.isOpen name = true) :
    w.Opens w₁ [] els := by
  obtain ⟨steps, hdraft, hdecl, hentered, hels⟩ := h.steps
  refine ⟨h.flat, h.nextIndex, h.nextSum, h.extents, fun name => ?_, steps, hdraft, hdecl,
    hentered.trans (newLoops_of_isOpen hopen), hels⟩
  rw [h.opened, or_iff_left_of_imp (hopen name)]
  simp

theorem enter {name : String} (hclosed : w.isOpen name = false) :
    w.Opens (w.openLoop name (w.extentOf name)) [name] [] := by
  refine ⟨rfl, rfl, rfl, (w.grows_openLoop name).extents, fun other => ?_,
    [.enter name (w.extentOf name)], rfl, fun s hs => ?_, ?_, rfl⟩
  · rw [isOpen_openLoop, Bool.or_eq_true, beq_iff_eq, List.mem_singleton, or_comm, @eq_comm _ name]
  · cases List.mem_singleton.mp hs
  · rw [newLoops, List.filter_cons, if_pos (by simp [hclosed]), List.filter_nil]
    rfl

/-- The indices of a subscript are used. -/
theorem ensure (hflat : w.flat = none) (is : List Index) :
    w.Opens (w.ensure is) (is.filterMap Index.loopName?) [] := by
  rw [Writer.ensure, if_neg (by simp [hflat])]
  clear hflat
  induction is generalizing w with
  | nil => exact .refl w
  | cons i is ih =>
    rw [List.foldl_cons, List.filterMap_cons]
    cases i.loopName? with
    | none => exact ih
    | some name =>
      dsimp only
      by_cases hopen : w.isOpen name = true
      · rw [if_pos hopen]
        exact ih.of_isOpen hopen
      · rw [if_neg hopen]
        exact (enter (by simpa using hopen)).trans ih

/-- A temporary takes the value of an expression. -/
theorem declare (h : w.Opens w₁ names els) (e : Expr) :
    w.Opens ({ w₁ with nextTemp := w₁.nextTemp + 1 }.write (.declare w₁.nextTemp e)) names
      (els ++ e.elements) := by
  obtain ⟨steps, hdraft, hdecl, hentered, hels⟩ := h.steps
  have hgrows := grows_write { w₁ with nextTemp := w₁.nextTemp + 1 } (.declare w₁.nextTemp e)
  refine ⟨hgrows.flat.trans h.flat, by rw [write_rest]; exact h.nextIndex,
    by rw [write_rest]; exact h.nextSum,
    fun name => (hgrows.extents name).trans (h.extents name), fun name => ?_,
    steps ++ [.put (.declare w₁.nextTemp e)], ?_, hdecl.append fun s hs => ?_, ?_, ?_⟩
  · rw [isOpen_write]
    exact h.opened name
  · rw [draft_write, Draft.addAll_append]
    exact congrArg (Draft.write · (.declare w₁.nextTemp e)) hdraft
  · cases List.mem_singleton.mp hs
    exact ⟨_, _, rfl⟩
  · rw [entered_append, hentered]
    exact List.append_nil _
  · rw [List.flatMap_append, hels, List.flatMap_singleton]
    rfl

end Opens

end Writer

/-! ## Runs that succeed -/

namespace Emit

variable {β γ : Type} {w w' : Writer}

theorem bind_eq_ok {x : Emit β} {f : β → Emit γ} {c : γ} (h : (x >>= f) w = .ok (c, w')) :
    ∃ b w₁, x w = .ok (b, w₁) ∧ f b w₁ = .ok (c, w') := by
  change (x w >>= fun r => f r.1 r.2) = _ at h
  cases hx : x w with
  | error e =>
    rw [hx] at h
    cases h
  | ok r =>
    rw [hx] at h
    exact ⟨r.1, r.2, rfl, h⟩

theorem pure_eq_ok {b c : β} (h : (pure b : Emit β) w = .ok (c, w')) : c = b ∧ w' = w := by
  cases h
  exact ⟨rfl, rfl⟩

theorem demand_eq_ok {o : Option β} {b : β} (h : demand o w = .ok (b, w')) : o = some b ∧ w = w' := by
  cases o with
  | none => cases h
  | some c =>
    cases h
    exact ⟨rfl, rfl⟩

theorem modify_eq_ok {f : Writer → Writer} {u : Unit} (h : (modify f : Emit Unit) w = .ok (u, w')) :
    f w = w' := by
  cases h
  rfl

theorem get_eq_ok {v : Writer} (h : (get : Emit Writer) w = .ok (v, w')) : w = v ∧ w = w' := by
  cases h
  exact ⟨rfl, rfl⟩

end Emit

/-! ## Accesses -/

/-- The element of an array that an access is to. -/
def Locates (p : Program) (layout : Layout) (acc : Access Index) (e : Element) : Prop :=
  e.tensor = acc.name ∧ ∃ stored, (p.find acc.name).map (·.shape) = some stored ∧
    offsetOf layout acc.index stored = some e.offset

/-- The names of the indices that need a loop. -/
def loopNames (is : List Index) : List String := is.filterMap Index.loopName?

variable {p : Program} {layout : Layout} {w w₁ w₂ w' : Writer}

/-- An element is written once the loops of its subscript are open. -/
theorem access_opens (hflat : w.flat = none) {n : Node} {own : List Index} {e : Element}
    (h : Emit.access p layout n own w = .ok (e, w')) :
    ∃ sub, n.subscript .fixed own = some sub ∧ w.Opens w' (loopNames sub) [] ∧
      ∀ id write, Locates p layout ⟨id, n.name, sub, write⟩ e := by
  rw [Emit.access] at h
  cases hstored : p.storedShape? n with
  | none =>
    rw [hstored] at h
    cases h
  | some stored =>
    rw [hstored] at h
    obtain ⟨sub, w₁, h₁, h⟩ := Emit.bind_eq_ok h
    obtain ⟨hsub, rfl⟩ := Emit.demand_eq_ok h₁
    obtain ⟨_, w₂, h₂, h⟩ := Emit.bind_eq_ok h
    obtain rfl := Emit.modify_eq_ok h₂
    obtain ⟨_, w₃, h₃, h⟩ := Emit.bind_eq_ok h
    obtain ⟨rfl, rfl⟩ := Emit.get_eq_ok h₃
    have hopens := Writer.Opens.ensure hflat sub
    rw [hopens.flat, hflat] at h
    obtain ⟨o, w₄, h₄, h⟩ := Emit.bind_eq_ok h
    obtain ⟨ho, rfl⟩ := Emit.demand_eq_ok h₄
    obtain ⟨rfl, rfl⟩ := Emit.pure_eq_ok h
    exact ⟨sub, hsub, hopens, fun _ _ => ⟨rfl, stored, hstored, ho⟩⟩

/-- The indices of a subscript are those of an identifier and its fixed positions, which are not
negative. -/
theorem confined_subscript {n : Node} {stored : Shape} (hviews : n.Views stored)
    {own sub : List Index} (hsub : n.subscript .fixed own = some sub) :
    ∀ i ∈ sub, i ∈ own ∨ ∃ k, 0 ≤ k ∧ i = .fixed k := by
  intro i hi
  rw [(perm_forward (backward_eq_some_iff.mp hsub)).symm.mem_iff, List.mem_append, List.mem_map] at hi
  rcases hi with ⟨k, hk, rfl⟩ | hi
  · exact .inr ⟨k, hviews.fixed_nonneg k hk, rfl⟩
  · exact .inl hi

/-- Positions that are not negative need no loop. -/
theorem loopNames_subset {names : List String} {is : List Index}
    (h : ∀ i ∈ is, i ∈ names.map .loop ∨ ∃ k, 0 ≤ k ∧ i = .fixed k) : loopNames is ⊆ names := by
  intro name hname
  obtain ⟨i, hi, hin⟩ := List.mem_filterMap.mp hname
  rcases h i hi with hmem | ⟨k, hk, rfl⟩
  · obtain ⟨other, hother, rfl⟩ := List.mem_map.mp hmem
    cases hin
    exact hother
  · rw [Index.loopName?, if_neg (Int.not_lt.mpr hk)] at hin
    cases hin

@[simp] theorem loopNames_map_loop (names : List String) : loopNames (names.map .loop) = names := by
  rw [loopNames, List.filterMap_map]
  exact List.filterMap_some

/-- The indices of the operands of a node are indices of its result or contracted ones. -/
theorem confined_operand {n : Node} (hk : n.kind ≠ .stack) {ranks : List (Option Nat)}
    {is con : List Index} {ops : List (List Index)} (hops : n.operandIndices ranks is con = some ops)
    {js : List Index} (hjs : js ∈ ops) : js ⊆ is ++ con := by
  intro i hi
  rw [List.mem_append]
  by_cases hcon : i ∈ con
  · exact .inr hcon
  · have hcount := Node.operandIndices_count hk hcon hops js hjs
    exact .inl (List.count_pos_iff.mp (Nat.lt_of_lt_of_le (List.count_pos_iff.mpr hi) hcount))

/-! ## Expressions -/

variable {sum : Nat → Index} {t : Tree} {is js : List Index} {reads reads' : List (Access Index)}
  {tail tail' : List Element}

/-- The reads of a tree at some indices, whatever the numbers of its contracted indices are. -/
def Lists (sum : Nat → Index) (t : Tree) (is : List Index) (reads : List (Access Index)) : Prop :=
  ∀ next, ∃ next', t.readsAt .fixed sum is next = some (reads, next')

/-- Reads have been written at some indices: the loops of these have been opened in order, and the
elements are read in what has been written or in an expression, which has the elements `tail`. -/
structure Covers (p : Program) (layout : Layout) (w w' : Writer) (is : List Index)
    (reads : List (Access Index)) (tail : List Element) : Prop where
  confined : ∀ acc ∈ reads, ∀ i ∈ acc.index, i ∈ is ∨ ∃ k, 0 ≤ k ∧ i = .fixed k
  opens : ∃ els es, w.Opens w' (reads.flatMap (loopNames ·.index)) els ∧ (els ++ tail).Perm es ∧
    List.Forall₂ (Locates p layout) reads es

namespace Covers

theorem flat (h : Covers p layout w w' is reads tail) : w'.flat = w.flat := by
  obtain ⟨els, es, hopens, -⟩ := h.opens
  exact hopens.flat

theorem mono (h : Covers p layout w w' is reads tail) (hsub : is ⊆ js) :
    Covers p layout w w' js reads tail :=
  ⟨fun acc hacc i hi => (h.confined acc hacc i hi).imp_left (@hsub i), h.opens⟩

theorem append (h : Covers p layout w w₁ is reads tail) (h' : Covers p layout w₁ w₂ is reads' tail') :
    Covers p layout w w₂ is (reads ++ reads') (tail ++ tail') := by
  obtain ⟨els, es, hopens, hperm, hes⟩ := h.opens
  obtain ⟨els', es', hopens', hperm', hes'⟩ := h'.opens
  refine ⟨fun acc hacc => (List.mem_append.mp hacc).elim (h.confined acc) (h'.confined acc),
    els ++ els', es ++ es', ?_, ?_, List.rel_append hes hes'⟩
  · rw [List.flatMap_append]
    exact hopens.trans hopens'
  · refine List.Perm.trans ?_ (hperm.append hperm')
    rw [List.append_assoc, List.append_assoc, List.perm_append_left_iff, ← List.append_assoc,
      ← List.append_assoc, List.perm_append_right_iff]
    exact List.perm_append_comm

/-- The elements of an expression are read in the declaration of a temporary. -/
theorem declare {e : Expr} (h : Covers p layout w w₁ is reads e.elements) :
    Covers p layout w ({ w₁ with nextTemp := w₁.nextTemp + 1 }.write (.declare w₁.nextTemp e)) is
      reads [] := by
  obtain ⟨els, es, hopens, hperm, hes⟩ := h.opens
  exact ⟨h.confined, els ++ e.elements, es, hopens.declare e, by rwa [List.append_nil], hes⟩

end Covers

/-- What is said of the run of the writer for a tree. -/
def Covered (p : Program) (layout : Layout) (sum : Nat → Index) (t : Tree) : Prop :=
  ∀ ⦃is w e w'⦄, w.flat = none → Emit.tree p layout t is w = .ok (e, w') →
    ∃ reads, Lists sum t is reads ∧ Covers p layout w w' is reads e.elements

theorem operandAt_covers {ts : List Tree} {indices : List (List Index)} {k : Nat} (ht : ts[k]? = some t)
    (hcovered : Covered p layout sum t) (hflat : w.flat = none) {e : Expr}
    (h : Emit.operandAt ts (ts.map (Emit.tree p layout)) indices k w = .ok (e, w')) :
    ∃ is reads, indices[k]? = some is ∧ Lists sum t is reads ∧
      Covers p layout w w' is reads e.elements := by
  rw [Emit.operandAt] at h
  obtain ⟨t', w₁, h₁, h⟩ := Emit.bind_eq_ok h
  obtain ⟨ht', rfl⟩ := Emit.demand_eq_ok h₁
  cases ht.symm.trans ht'
  obtain ⟨value, w₂, h₂, h⟩ := Emit.bind_eq_ok h
  obtain ⟨hvalue, rfl⟩ := Emit.demand_eq_ok h₂
  rw [List.getElem?_map, ht] at hvalue
  cases hvalue
  obtain ⟨is, w₃, h₃, h⟩ := Emit.bind_eq_ok h
  obtain ⟨his, rfl⟩ := Emit.demand_eq_ok h₃
  rw [Emit.operand] at h
  obtain ⟨v, w₄, h₄, h⟩ := Emit.bind_eq_ok h
  obtain ⟨reads, hlists, hcovers⟩ := hcovered hflat h₄
  refine ⟨is, reads, his, hlists, ?_⟩
  cases hleaf : (t.label?.map (·.kind.isLeaf)).getD false with
  | true =>
    rw [hleaf] at h
    obtain ⟨rfl, rfl⟩ := Emit.pure_eq_ok h
    exact hcovers
  | false =>
    rw [hleaf] at h
    cases h
    exact hcovers.declare

/-- Both operands of a node are written, one after the other. -/
theorem operands_cover {t₀ t₁ : Tree} {indices : List (List Index)}
    (hcovered : ∀ t ∈ [t₀, t₁], Covered p layout sum t) (hflat : w.flat = none) {x y : Expr}
    (hx : Emit.operandAt [t₀, t₁] ([t₀, t₁].map (Emit.tree p layout)) indices 0 w = .ok (x, w₁))
    (hy : Emit.operandAt [t₀, t₁] ([t₀, t₁].map (Emit.tree p layout)) indices 1 w₁ = .ok (y, w₂))
    (hsub : ∀ js ∈ indices, js ⊆ is) :
    ∃ reads, (∀ next, ∃ next',
        Tree.readsOperands .fixed sum [t₀, t₁] indices next = some (reads, next')) ∧
      Covers p layout w w₂ is reads (x.elements ++ y.elements) := by
  obtain ⟨is₀, reads₀, his₀, hlists₀, hcovers₀⟩ :=
    operandAt_covers rfl (hcovered t₀ (.head _)) hflat hx
  obtain ⟨is₁, reads₁, his₁, hlists₁, hcovers₁⟩ :=
    operandAt_covers rfl (hcovered t₁ (.tail _ (.head _))) (hcovers₀.flat.trans hflat) hy
  refine ⟨reads₀ ++ reads₁, fun next => ?_, (hcovers₀.mono (hsub is₀ (List.mem_of_getElem? his₀))).append
    (hcovers₁.mono (hsub is₁ (List.mem_of_getElem? his₁)))⟩
  obtain ⟨next₀, h₀⟩ := hlists₀ next
  obtain ⟨next₁, h₁⟩ := hlists₁ next₀
  refine ⟨next₁, ?_⟩
  cases indices with
  | nil => cases his₀
  | cons i indices =>
    cases indices with
    | nil => cases his₁
    | cons j indices =>
      cases his₀
      cases his₁
      exact Tree.readsOperands_pair h₀ h₁

/-- Writing an expression opens the loops that its reads use, in their order. -/
theorem tree_covered {C : Node → Prop} (h : t.Typed C p.find.shapes) :
    Covered p layout sum t := by
  induction h with
  | @node id n ts _ hfits hts ih =>
    intro is w e w' hflat hrun
    rw [Emit.tree_node] at hrun
    have harith : ∀ {op : ArithOp}, n.kind.arith? = some op → n.kind ≠ .stack →
        n.kind ≠ .contraction → (∃ t₀ t₁, ts = [t₀, t₁]) →
        ∃ reads, Lists sum (.node id n ts) is reads ∧ Covers p layout w w' is reads e.elements := by
      rintro op hop hstack hcontraction ⟨t₀, t₁, rfl⟩
      rw [Emit.node_arith hop] at hrun
      obtain ⟨indices, w₁, h₁, hrun⟩ := Emit.bind_eq_ok hrun
      obtain ⟨hindices, rfl⟩ := Emit.demand_eq_ok h₁
      obtain ⟨x, w₂, hx, hrun⟩ := Emit.bind_eq_ok hrun
      obtain ⟨y, w₃, hy, hrun⟩ := Emit.bind_eq_ok hrun
      obtain ⟨rfl, rfl⟩ := Emit.pure_eq_ok hrun
      obtain ⟨reads, hreads, hcovers⟩ := operands_cover ih hflat hx hy fun js hjs => by
        simpa using confined_operand hstack hindices hjs
      refine ⟨reads, fun next => ?_, hcovers⟩
      rw [Tree.readsAt_operands (NodeKind.isLeaf_of_arith hop),
        Node.operandIndices_of_ne_contraction hcontraction _ _ _ [], hindices]
      exact hreads _
    generalize hshapes : ts.map Tree.shape = shapes at hfits
    cases hfits with
    | identifier hk hS hviews =>
      rw [Emit.node, hk] at hrun
      obtain ⟨el, w₁, h₁, hrun⟩ := Emit.bind_eq_ok hrun
      obtain ⟨rfl, rfl⟩ := Emit.pure_eq_ok hrun
      obtain ⟨sub, hsub, hopens, hlocates⟩ := access_opens hflat h₁
      refine ⟨[⟨id, n.name, sub, false⟩], fun next => ⟨next, ?_⟩, fun acc hacc i hi => ?_,
        [], [el], by simpa using hopens, .refl _, .cons (hlocates id false) .nil⟩
      · rw [Tree.readsAt_ident hk, hsub]
        rfl
      · cases List.mem_singleton.mp hacc
        exact confined_subscript hviews hsub i hi
    | constant hk =>
      rw [Emit.node, hk] at hrun
      obtain ⟨rfl, rfl⟩ := Emit.pure_eq_ok hrun
      refine ⟨[], fun next => ⟨next, Tree.readsAt_constant hk _ _⟩, fun _ hacc => (by cases hacc), [], [],
        .refl _, .refl _, .nil⟩
    | elementwise hk | scalarMul hk | scalarDiv hk | product hk =>
      obtain ⟨t₀, t₁, hts₀, -⟩ := Tree.map_eq_pair hshapes
      obtain ⟨op, hop⟩ := NodeKind.exists_arith (k := n.kind) (by simp [hk, NodeKind.isScalar])
      exact harith hop (fun h => by rw [h] at hop; cases hop) (fun h => by rw [h] at hop; cases hop)
        ⟨t₀, t₁, hts₀⟩
    | contraction hk | stack hk | transposition hk =>
      rw [Emit.node, hk] at hrun
      obtain ⟨_, _, _, hrun⟩ := Emit.bind_eq_ok hrun
      cases hrun

/-- The operands of a contraction open no loops, once those of the result and of the contracted indices
are open. -/
theorem operands_open {C : Node → Prop} {id : NodeId} {n : Node} {t₀ t₁ : Tree}
    (h : (Tree.node id n [t₀, t₁]).Typed C p.find.shapes) (hk : n.kind = .contraction)
    {names sums : List String} {indices : List (List Index)}
    (hindices : n.operandIndices ([t₀, t₁].map Tree.rank?) (names.map .loop) (sums.map .loop) = some indices)
    (hflat : w.flat = none) (hopen : ∀ name ∈ names ++ sums, w.isOpen name = true) {x y : Expr}
    (hx : Emit.operandAt [t₀, t₁] ([t₀, t₁].map (Emit.tree p layout)) indices 0 w = .ok (x, w₁))
    (hy : Emit.operandAt [t₀, t₁] ([t₀, t₁].map (Emit.tree p layout)) indices 1 w₁ = .ok (y, w₂)) :
    ∃ reads els es, (∀ next, ∃ next',
        Tree.readsOperands .fixed sum [t₀, t₁] indices next = some (reads, next')) ∧
      w.Opens w₂ [] els ∧ (els ++ (x.elements ++ y.elements)).Perm es ∧
      List.Forall₂ (Locates p layout) reads es := by
  have hcovered : ∀ t ∈ [t₀, t₁], Covered p layout sum t := by
    cases h with
    | node _ _ hts => exact fun t ht => tree_covered (hts t ht)
  obtain ⟨reads, hlists, hcovers⟩ := operands_cover hcovered hflat hx hy fun js hjs =>
    confined_operand (by simp [hk]) hindices hjs
  obtain ⟨els, es, hopens, hperm, hes⟩ := hcovers.opens
  refine ⟨reads, els, es, hlists, hopens.of_forall_isOpen fun name hname => ?_, hperm, hes⟩
  obtain ⟨acc, hacc, hname⟩ := List.mem_flatMap.mp hname
  refine hopen name (loopNames_subset (fun i hi => ?_) hname)
  rw [List.map_append]
  exact hcovers.confined acc hacc i hi

end LoopNest.C
