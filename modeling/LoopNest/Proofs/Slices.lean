import LoopNest.Proofs.Index.Visits
import LoopNest.Proofs.Loops

/-!
# The indices that the loops of an assignment visit

Loops over the axes of a result in any order visit the indices that `visited` lists. Of an assignment
whose axis is bound to the shared loop, they visit those indices that have the value of that loop
there, in the same order (`filter_visited`).
-/

namespace LoopNest

variable {shape start idx : List Int} {order : List Nat} {k : Nat}

/-- The indices that one loop for each of the given axes visits, in order, from an index that has the
other coordinates. An axis of negative length is visited once. -/
def visitedFrom (shape : List Int) : List Nat → List Int → List (List Int)
  | [], start => [start]
  | k :: order, start => (List.range (max 1 (shape[k]?.getD 0).toNat)).flatMap fun (i : Nat) =>
      visitedFrom shape order (start.set k i)

/-- The indices that loops over the given axes visit: none when the length of one of these is zero. -/
def visited (shape : List Int) (order : List Nat) (start : List Int) : List (List Int) :=
  if order.any (shape[·]? == some 0) then [] else visitedFrom shape order start

theorem length_of_mem_visitedFrom (h : idx ∈ visitedFrom shape order start) :
    idx.length = start.length := by
  induction order generalizing start with
  | nil => rw [List.mem_singleton.mp h]
  | cons k order ih =>
    obtain ⟨i, -, h⟩ := List.mem_flatMap.mp h
    rw [ih h, List.length_set]

theorem visitedFrom_coordinate_of_notMem (hk : k ∉ order) (h : idx ∈ visitedFrom shape order start) :
    idx[k]? = start[k]? := by
  induction order generalizing start with
  | nil => rw [List.mem_singleton.mp h]
  | cons j order ih =>
    obtain ⟨i, -, h⟩ := List.mem_flatMap.mp h
    rw [List.mem_cons, not_or] at hk
    rw [ih hk.2 h, List.getElem?_set_ne (Ne.symm hk.1)]

/-- Changing a coordinate that no loop runs over. -/
theorem map_set_visitedFrom (hk : k ∉ order) (f : Int) :
    (visitedFrom shape order start).map (·.set k f) = visitedFrom shape order (start.set k f) := by
  induction order generalizing start with
  | nil => rfl
  | cons j order ih =>
    rw [List.mem_cons, not_or] at hk
    rw [visitedFrom, visitedFrom, List.map_flatMap]
    refine List.flatMap_congr fun i _ => ?_
    rw [ih hk.2, List.set_comm _ _ (Ne.symm hk.1)]

/-- The indices with a given value at an axis are visited by the other loops, in the same order. -/
theorem filter_visitedFrom (hnd : order.Nodup) (hk : k ∈ order) (hlen : k < start.length) {f : Nat}
    (hf : f < max 1 (shape[k]?.getD 0).toNat) :
    (visitedFrom shape order start).filter (·[k]? = some (f : Int)) =
      visitedFrom shape (order.filter (· ≠ k)) (start.set k f) := by
  induction order generalizing start with
  | nil => cases hk
  | cons j order ih =>
    obtain ⟨hnot, hnd⟩ := List.nodup_cons.mp hnd
    rw [visitedFrom, List.filter_flatMap]
    by_cases hj : j = k
    · subst hj
      have hother : order.filter (· ≠ j) = order := List.filter_eq_self.mpr fun i hi => by
        simpa using fun heq : i = j => hnot (heq ▸ hi)
      have hat : ∀ (i : Nat), ∀ idx ∈ visitedFrom shape order (start.set j i), idx[j]? = some (i : Int) :=
        fun i idx hidx => by
          rw [visitedFrom_coordinate_of_notMem hnot hidx, List.getElem?_set_self hlen]
      rw [List.filter_cons_of_neg (by simp), hother,
        flatMap_eq_of_forall_ne List.nodup_range (List.mem_range.mpr hf) fun i _ hne => ?_]
      · exact List.filter_eq_self.mpr fun idx hidx => by simpa using hat f idx hidx
      · refine List.filter_eq_nil_iff.mpr fun idx hidx => ?_
        rw [hat i idx hidx]
        simp only [Option.some.injEq, decide_eq_true_eq]
        omega
    · have hk : k ∈ order := (List.mem_cons.mp hk).resolve_left (Ne.symm hj)
      rw [List.filter_cons_of_pos (by simpa using hj), visitedFrom]
      refine List.flatMap_congr fun i _ => ?_
      rw [ih hnd hk (by simpa using hlen), List.set_comm _ _ (Ne.symm hj)]

theorem visitedFrom_coordinate (hnd : order.Nodup) (hk : k ∈ order) (hlen : k < start.length)
    (h : idx ∈ visitedFrom shape order start) :
    ∃ f : Nat, f < max 1 (shape[k]?.getD 0).toNat ∧ idx[k]? = some (f : Int) := by
  induction order generalizing start with
  | nil => cases hk
  | cons j order ih =>
    obtain ⟨hnot, hnd⟩ := List.nodup_cons.mp hnd
    obtain ⟨i, hi, h⟩ := List.mem_flatMap.mp h
    by_cases hj : j = k
    · subst hj
      exact ⟨i, List.mem_range.mp hi, by
        rw [visitedFrom_coordinate_of_notMem hnot h, List.getElem?_set_self hlen]⟩
    · exact ih hnd ((List.mem_cons.mp hk).resolve_left (Ne.symm hj)) (by simpa using hlen) h

/-- The loops of an assignment visit what is listed. -/
theorem map_placeLoops_visits {extents : List Int} (h : order.mapM (shape[·]?) = some extents) :
    (visits extents).map (fun loops => placeLoops order loops start) = visited shape order start := by
  have hany : order.any (shape[·]? == some 0) = decide (0 ∈ extents) := by
    induction order generalizing extents with
    | nil =>
      cases h
      rfl
    | cons k order ih =>
      simp only [List.mapM_cons, Option.bind_eq_bind, Option.bind_eq_some_iff, Option.pure_def,
        Option.some.injEq] at h
      obtain ⟨d, hd, es, hes, rfl⟩ := h
      rw [List.any_cons, ih hes, hd]
      simp [eq_comm, beq_eq_decide]
  rw [visited, hany, visits]
  by_cases h0 : 0 ∈ extents
  · simp [h0]
  · rw [if_neg h0, if_neg (by simpa using h0)]
    clear h0 hany
    induction order generalizing extents start with
    | nil =>
      cases h
      rfl
    | cons k order ih =>
      simp only [List.mapM_cons, Option.bind_eq_bind, Option.bind_eq_some_iff, Option.pure_def,
        Option.some.injEq] at h
      obtain ⟨d, hd, es, hes, rfl⟩ := h
      have hmax : (max 1 d).toNat = max 1 d.toNat := by omega
      rw [List.map_cons, indices, visitedFrom, List.map_flatMap, hd, Option.getD_some, hmax]
      refine List.flatMap_congr fun i _ => ?_
      rw [List.map_map, ← ih hes]
      rfl

section

variable (hnd : order.Nodup) (hk : k ∈ order) (hlen : k < start.length) {d : Int}
  (hd : shape[k]? = some d)
include hnd hk hlen hd

theorem filter_visited {f : Int} (lo : 0 ≤ f) (hi : f < d) :
    (visited shape order start).filter (·[k]? = some f) =
      visited shape (order.filter (· ≠ k)) (start.set k f) := by
  have hany : (order.filter (· ≠ k)).any (shape[·]? == some 0) = order.any (shape[·]? == some 0) := by
    rw [List.any_filter, Bool.eq_iff_iff, List.any_eq_true, List.any_eq_true]
    refine exists_congr fun j => and_congr_right fun _ => ?_
    by_cases hj : j = k
    · subst hj
      rw [hd]
      simp
      omega
    · simp [hj]
  rw [visited, visited, hany]
  split
  · rfl
  · have hf : f.toNat < max 1 (shape[k]?.getD 0).toNat := by
      rw [hd, Option.getD_some]
      omega
    have := filter_visitedFrom hnd hk hlen hf
    rwa [Int.toNat_of_nonneg lo] at this

theorem visited_coordinate (hd0 : 0 ≤ d) (h : idx ∈ visited shape order start) :
    ∃ f, idx[k]? = some f ∧ 0 ≤ f ∧ f < d := by
  rw [visited] at h
  split at h
  · cases h
  · rename_i hany
    obtain ⟨f, hf, hidx⟩ := visitedFrom_coordinate hnd hk hlen h
    have hne : d ≠ 0 := fun h0 => hany (List.any_eq_true.mpr ⟨k, hk, by simp [hd, h0]⟩)
    rw [hd, Option.getD_some] at hf
    exact ⟨f, hidx, by omega, by omega⟩

/-- The coordinate at the axis of a loop can be any other one. -/
theorem set_mem_visited (hd0 : 0 ≤ d) (h : idx ∈ visited shape order start) {g : Int} (lo : 0 ≤ g)
    (hi : g < d) : idx.set k g ∈ visited shape order start := by
  obtain ⟨f, hf, hlo, hhi⟩ := visited_coordinate hnd hk hlen hd hd0 h
  have hmem : idx ∈ (visited shape order start).filter (·[k]? = some f) :=
    List.mem_filter.mpr ⟨h, by simpa using hf⟩
  rw [filter_visited hnd hk hlen hd hlo hhi] at hmem
  have hset : idx.set k g ∈ (visited shape order start).filter (·[k]? = some g) := by
    rw [filter_visited hnd hk hlen hd lo hi]
    rw [visited] at hmem ⊢
    split at hmem
    · cases hmem
    · have hmap := List.mem_map_of_mem (f := (·.set k g)) hmem
      rw [if_neg ‹_›]
      rwa [map_set_visitedFrom (by simp), List.set_set] at hmap
  exact List.mem_of_mem_filter hset

end

theorem length_of_mem_visited (h : idx ∈ visited shape order start) : idx.length = start.length := by
  rw [visited] at h
  split at h
  · cases h
  · exact length_of_mem_visitedFrom h

/-! ## Assignments -/

namespace Program

variable {p : Program} {a : Assignment}

/-- An assignment computes the elements at the indices that its loops visit. -/
theorem Places.runAssignment_visited {c : Clause} (h : p.Places a c) {f : Int}
    (horder : p.loopOrder a = some order) (hmem : ∀ k ∈ order, k < c.target.shape.length)
    (hstart : startIndex c.target.shape.rank a.fuseAxis f = some start) {α : Type} [Scalar α]
    {mem : Memory α} (hcontains : mem.contains c.name) : p.runAssignment a f mem =
      orFault ((visited c.target.shape order start).foldlM
        (fun mem idx => runElement c.target c.tree idx mem) mem) := by
  obtain ⟨extents, hextents, -⟩ := exists_mapM_getElem? hmem
  rw [h.runAssignment_loops horder hextents hstart hcontains, forEach_eq_visits,
    ← map_placeLoops_visits hextents, List.foldlM_map]

/-- The order of the loops depends on the nodes of the program alone. -/
theorem loopOrder_congr {q : Program} (h : q.nodes = p.nodes) (a : Assignment) :
    q.loopOrder a = p.loopOrder a := by
  simp only [loopOrder, accesses, accessesWith, dst?, node?, h, tree_congr h]

/-- Binding an axis to the shared loop takes its loop away. -/
theorem loopOrder_bound (h : a.fuseAxis = none) (k : Nat) :
    p.loopOrder { a with fuseAxis := some k } = (p.loopOrder a).map (List.filter (· ≠ k)) := by
  have hfilter : ∀ axes : List Nat, axes.filter (fun j => decide (some j ≠ some k)) =
      (axes.filter (fun j => decide (some j ≠ none))).filter (· ≠ k) := by
    intro axes
    rw [List.filter_filter]
    exact List.filter_congr fun j _ => by simp
  simp only [loopOrder, h, Option.bind_eq_bind, Option.map_bind]
  refine Option.bind_congr fun dst _ => ?_
  rw [Function.comp_apply, Option.map_bind]
  refine Option.bind_congr fun root _ => ?_
  rw [Function.comp_apply]
  by_cases hk : root.kind = .contraction
  · simp only [if_pos hk, Option.bind_some, Option.pure_def, Option.map_some, hfilter]
  · simp only [if_neg hk, Option.map_bind]
    refine Option.bind_congr fun accesses _ => ?_
    cases accesses <;>
      simp only [Function.comp_apply, Option.bind_some, Option.pure_def, Option.map_some, hfilter]

end Program

end LoopNest
