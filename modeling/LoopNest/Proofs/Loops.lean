import LoopNest.Proofs.Memory
import LoopNest.Proofs.Tree.Reads

/-!
# The loops of an assignment

An assignment is run by one loop per axis of its result, in the order that its accesses suggest.
Whatever the order is, every index of the result is visited exactly once (`runAssignment_eq`), or
every index at which the axis of the shared loop has the value of that loop.
-/

namespace LoopNest

/-- Induction over a list from which the copies of its first element are removed. -/
theorem eraseDups_induct {τ : Type _} [BEq τ] {motive : List τ → Prop} (nil : motive [])
    (cons : ∀ x l, motive (l.filter fun y => !y == x) → motive (x :: l)) (l : List τ) : motive l := by
  generalize hn : l.length = n
  induction n using Nat.strongRecOn generalizing l with
  | ind n ih =>
    cases l with
    | nil => exact nil
    | cons x l =>
      refine cons x l (ih _ ?_ _ rfl)
      have := List.length_filter_le (fun y => !y == x) l
      rw [List.length_cons] at hn
      omega

theorem nodup_eraseDups {τ : Type _} [BEq τ] [LawfulBEq τ] (l : List τ) : l.eraseDups.Nodup := by
  induction l using eraseDups_induct with
  | nil => simp
  | cons x l ih =>
    rw [List.eraseDups_cons, List.nodup_cons, List.mem_eraseDups]
    exact ⟨by simp, ih⟩

theorem eraseDups_filter {τ : Type _} [BEq τ] [LawfulBEq τ] (f : τ → Bool) (l : List τ) :
    (l.filter f).eraseDups = l.eraseDups.filter f := by
  induction l using eraseDups_induct with
  | nil => simp
  | cons x l ih =>
    rw [List.filter_filter] at ih
    rw [List.eraseDups_cons, List.filter_cons, List.filter_cons, ← ih]
    by_cases hx : f x = true
    · rw [if_pos hx, if_pos hx, List.eraseDups_cons, List.filter_filter]
      simp only [Bool.and_comm]
    · rw [if_neg hx, if_neg hx]
      refine congrArg List.eraseDups (List.filter_congr fun y _ => ?_)
      have hne : f y = true → (!y == x) = true := fun hy => by
        simpa using fun heq : y = x => hx (heq ▸ hy)
      cases hy : f y with
      | false => rfl
      | true => rw [hne hy, Bool.and_self]

theorem eraseDups_map {σ τ : Type _} [BEq σ] [LawfulBEq σ] [BEq τ] [LawfulBEq τ] {f : σ → τ}
    {l : List σ} (h : ∀ x ∈ l, ∀ y ∈ l, f x = f y → x = y) :
    (l.map f).eraseDups = l.eraseDups.map f := by
  induction l using eraseDups_induct with
  | nil => simp
  | cons x l ih =>
    have hfilter : (l.map f).filter (fun y => !y == f x) = (l.filter fun y => !y == x).map f := by
      rw [List.filter_map]
      refine congrArg (List.map f) (List.filter_congr fun y hy => ?_)
      have hiff : f y = f x ↔ y = x := ⟨h y (.tail _ hy) x (.head _), congrArg f⟩
      rw [Bool.eq_iff_iff]
      simpa using not_congr hiff
    rw [List.map_cons, List.eraseDups_cons, List.eraseDups_cons, hfilter, List.map_cons, ih fun y hy z hz =>
      h y (.tail _ (List.mem_of_mem_filter hy)) z (.tail _ (List.mem_of_mem_filter hz))]

theorem eraseDups_of_nodup {τ : Type _} [BEq τ] [LawfulBEq τ] {l : List τ} (h : l.Nodup) :
    l.eraseDups = l := by
  induction l with
  | nil => simp
  | cons x l ih =>
    obtain ⟨hnot, hnd⟩ := List.nodup_cons.mp h
    have hfilter : l.filter (fun y => !y == x) = l := List.filter_eq_self.mpr fun y hy => by
      simpa using fun heq : y = x => hnot (heq ▸ hy)
    rw [List.eraseDups_cons, hfilter, ih hnd]

/-- Of several copies of a list one is left. -/
theorem eraseDups_copies {τ : Type _} [BEq τ] [LawfulBEq τ] {l : List τ} (hnd : l.Nodup)
    {copies : List (List τ)} (h : ∀ x ∈ copies, x = l ∨ x = []) :
    (copies.flatten ++ l).eraseDups = l := by
  induction copies with
  | nil => exact eraseDups_of_nodup hnd
  | cons x copies ih =>
    rw [List.forall_mem_cons] at h
    rcases h.1 with rfl | rfl
    · have hrest : (copies.flatten ++ x).removeAll x = [] := by
        refine List.filter_eq_nil_iff.mpr fun y hy => ?_
        rw [List.mem_append, List.mem_flatten] at hy
        have hmem : y ∈ x := by
          rcases hy with ⟨z, hz, hy⟩ | hy
          · rcases h.2 z hz with rfl | rfl
            · exact hy
            · cases hy
          · exact hy
        simpa using hmem
      rw [List.flatten_cons, List.append_assoc, List.eraseDups_append, hrest, eraseDups_of_nodup hnd,
        List.eraseDups_nil, List.append_nil]
    · exact ih h.2

theorem inRange_iff_getElem? {ds is : List Int} : InRange ds is ↔ is.length = ds.length ∧
    ∀ (k : Nat) (d i : Int), ds[k]? = some d → is[k]? = some i → 0 ≤ i ∧ i < d := by
  rw [inRange_iff_forall₂, List.forall₂_iff_get]
  constructor
  · rintro ⟨hlen, h⟩
    refine ⟨hlen.symm, fun k d i hd hi => ?_⟩
    obtain ⟨hk, rfl⟩ := List.getElem?_eq_some_iff.mp hd
    obtain ⟨hk', rfl⟩ := List.getElem?_eq_some_iff.mp hi
    exact h k hk hk'
  · rintro ⟨hlen, h⟩
    exact ⟨hlen.symm, fun k hk hk' =>
      h k _ _ (List.getElem?_eq_getElem hk) (List.getElem?_eq_getElem hk')⟩

theorem InRange.set {ds is : List Int} {k : Nat} {d j : Int} (h : InRange ds is) (hd : ds[k]? = some d)
    (lo : 0 ≤ j) (hi : j < d) : InRange ds (is.set k j) := by
  obtain ⟨hlen, hcoords⟩ := inRange_iff_getElem?.1 h
  refine inRange_iff_getElem?.2 ⟨by rw [List.length_set, hlen], fun k' d' i hd' hi' => ?_⟩
  rw [List.getElem?_set] at hi'
  split at hi'
  · rename_i heq
    subst heq
    rw [hd] at hd'
    split at hi' <;> cases hd' <;> cases hi'
    exact ⟨lo, hi⟩
  · exact hcoords k' d' i hd' hi'

theorem exists_mapM_getElem? {τ : Type _} {l : List τ} {ks : List Nat} (h : ∀ k ∈ ks, k < l.length) :
    ∃ m, ks.mapM (l[·]?) = some m ∧ ∀ x ∈ m, x ∈ l := by
  induction ks with
  | nil => exact ⟨[], rfl, by simp⟩
  | cons k ks ih =>
    obtain ⟨m, hm, hsub⟩ := ih fun k hk => h k (List.mem_cons_of_mem _ hk)
    have hk := List.getElem?_eq_getElem (h k (.head _))
    exact ⟨l.get ⟨k, h k (.head _)⟩ :: m, by simp [hk, hm], by simpa using hsub⟩

/-! ## The indices that the loops visit -/

section

variable {order : List Nat} {loops start : List Int}

@[simp] theorem placeLoops_cons (axis : Nat) (i : Int) :
    placeLoops (axis :: order) (i :: loops) start = placeLoops order loops (start.set axis i) := rfl

theorem length_placeLoops (hlen : loops.length = order.length) :
    (placeLoops order loops start).length = start.length := by
  induction order generalizing loops start with
  | nil => rfl
  | cons axis order ih =>
    cases loops with
    | nil => cases hlen
    | cons i loops =>
      rw [placeLoops_cons, ih (by simpa using hlen), List.length_set]

theorem getElem?_placeLoops_of_notMem (hlen : loops.length = order.length) {k : Nat} (hk : k ∉ order) :
    (placeLoops order loops start)[k]? = start[k]? := by
  induction order generalizing loops start with
  | nil => rfl
  | cons axis order ih =>
    cases loops with
    | nil => cases hlen
    | cons i loops =>
      rw [List.mem_cons, not_or] at hk
      rw [placeLoops_cons, ih (by simpa using hlen) hk.2, List.getElem?_set_ne (Ne.symm hk.1)]

/-- The value of a loop stands at the axis of the loop. -/
theorem getElem?_placeLoops (hnd : order.Nodup) (hlen : loops.length = order.length) {j k : Nat}
    (hk : order[j]? = some k) (hstart : k < start.length) :
    (placeLoops order loops start)[k]? = loops[j]? := by
  induction order generalizing loops start j with
  | nil => cases hk
  | cons axis order ih =>
    obtain ⟨hnot, hnd⟩ := List.nodup_cons.mp hnd
    cases loops with
    | nil => cases hlen
    | cons i loops =>
      have hlen' : loops.length = order.length := by simpa using hlen
      rw [placeLoops_cons]
      cases j with
      | zero =>
        cases hk
        rw [getElem?_placeLoops_of_notMem hlen' hnot, List.getElem?_set_self hstart]
        rfl
      | succ j => exact ih hnd hlen' hk (by simpa using hstart)

end

/-- The index that the loops of an assignment start from: zeros, but for the axis of the shared loop. -/
def startIndex (rank : Nat) (axis : Option Nat) (f : Int) : Option (List Int) :=
  match axis with
  | none => some (List.replicate rank 0)
  | some k => setAt? (List.replicate rank 0) k f

/-- The axis of the shared loop, if there is one, is at the value of that loop. -/
def AtShared (axis : Option Nat) (f : Int) (idx : List Int) : Prop :=
  ∀ k ∈ axis, idx[k]? = some f

instance (axis : Option Nat) (f : Int) (idx : List Int) : Decidable (AtShared axis f idx) :=
  inferInstanceAs (Decidable (∀ k ∈ axis, idx[k]? = some f))

theorem atShared_none (f : Int) (idx : List Int) : AtShared none f idx := by
  simp [AtShared]

section

variable {shape start : List Int} {order : List Nat} {axis : Option Nat} {f : Int}

/-- The loops in a given order visit every index once. -/
theorem exists_visits (hpos : ∀ d ∈ shape, 0 < d) (hnd : order.Nodup)
    (horder : ∀ k, k ∈ order ↔ k < shape.length ∧ some k ≠ axis) (hlen : start.length = shape.length)
    (hstart : AtShared axis f start) (hf : ∀ k ∈ axis, ∀ d, shape[k]? = some d → 0 ≤ f ∧ f < d) :
    ∃ extents, order.mapM (shape[·]?) = some extents ∧ (∀ d ∈ extents, 0 < d) ∧
      ((indices extents).map fun loops => placeLoops order loops start).Nodup ∧
      ∀ idx, idx ∈ (indices extents).map (fun loops => placeLoops order loops start) ↔
        InRange shape idx ∧ AtShared axis f idx := by
  have hmem : ∀ k ∈ order, k < shape.length := fun k hk => ((horder k).mp hk).1
  obtain ⟨extents, hextents, hsub⟩ := exists_mapM_getElem? hmem
  have hlenext : extents.length = order.length := length_mapM hextents
  have hget : ∀ {j k : Nat}, order[j]? = some k → extents[j]? = shape[k]? := by
    intro j k hj
    obtain ⟨d, hd, hj'⟩ := mapM_getElem? hextents hj
    exact hj'.trans hd.symm
  have hloops : ∀ {loops}, InRange extents loops → loops.length = order.length := fun h =>
    h.length_eq.trans hlenext
  refine ⟨extents, hextents, fun d hd => hpos d (hsub d hd), ?_, fun idx => ?_⟩
  · refine List.Nodup.map_on (fun l hl l' hl' heq => ?_) (nodup_indices extents)
    rw [mem_indices] at hl hl'
    refine List.ext_getElem? fun j => ?_
    by_cases hj : j < order.length
    · have hk := List.getElem?_eq_getElem hj
      have hlt : order[j] < start.length := hlen ▸ hmem _ (List.getElem_mem hj)
      rw [← getElem?_placeLoops hnd (hloops hl) hk hlt, heq, getElem?_placeLoops hnd (hloops hl') hk hlt]
    · rw [List.getElem?_eq_none (by rw [hloops hl]; omega),
        List.getElem?_eq_none (by rw [hloops hl']; omega)]
  simp only [List.mem_map, mem_indices]
  constructor
  · rintro ⟨loops, hin, rfl⟩
    have hat : AtShared axis f (placeLoops order loops start) := by
      intro k hk
      rw [getElem?_placeLoops_of_notMem (hloops hin) fun hmem => ((horder k).mp hmem).2 hk.symm,
        hstart k hk]
    refine ⟨inRange_iff_getElem?.2 ⟨(length_placeLoops (hloops hin)).trans hlen, ?_⟩, hat⟩
    intro k d i hd hi
    by_cases hk : k ∈ order
    · obtain ⟨j, hj⟩ := List.mem_iff_getElem?.mp hk
      rw [getElem?_placeLoops hnd (hloops hin) hj (hlen ▸ hmem k hk)] at hi
      exact (inRange_iff_getElem?.1 hin).2 j d i ((hget hj).trans hd) hi
    · have hklt := (List.getElem?_eq_some_iff.mp hd).1
      have hshared : axis = some k := by
        by_contra hne
        exact hk ((horder k).mpr ⟨hklt, fun h => hne h.symm⟩)
      rw [hat k hshared] at hi
      cases hi
      exact hf k hshared d hd
  · rintro ⟨hin, hat⟩
    have hidx : ∀ k ∈ order, k < idx.length := fun k hk => hin.length_eq ▸ hmem k hk
    obtain ⟨loops, hl, -⟩ := exists_mapM_getElem? hidx
    have hlenl : loops.length = order.length := length_mapM hl
    have hgetl : ∀ {j k : Nat}, order[j]? = some k → loops[j]? = idx[k]? := by
      intro j k hj
      obtain ⟨d, hd, hj'⟩ := mapM_getElem? hl hj
      exact hj'.trans hd.symm
    refine ⟨loops, inRange_iff_getElem?.2 ⟨hlenl.trans hlenext.symm, fun j d i hd hi => ?_⟩, ?_⟩
    · have hj : j < order.length := hlenl ▸ (List.getElem?_eq_some_iff.mp hi).1
      have hk := List.getElem?_eq_getElem hj
      exact (inRange_iff_getElem?.1 hin).2 _ d i ((hget hk).symm.trans hd) ((hgetl hk).symm.trans hi)
    · refine List.ext_getElem? fun k => ?_
      by_cases hk : k ∈ order
      · obtain ⟨j, hj⟩ := List.mem_iff_getElem?.mp hk
        rw [getElem?_placeLoops hnd hlenl hj (hlen ▸ hmem k hk), hgetl hj]
      · rw [getElem?_placeLoops_of_notMem hlenl hk]
        by_cases hklt : k < shape.length
        · have hshared : axis = some k := by
            by_contra hne
            exact hk ((horder k).mpr ⟨hklt, fun h => hne h.symm⟩)
          rw [hstart k hshared, hat k hshared]
        · rw [List.getElem?_eq_none (by omega), List.getElem?_eq_none (by rw [hin.length_eq]; omega)]

end

/-! ## The order of the loops -/

section

variable {K : ShapeClass} {N : NodeClass} {find : Symbols} {p : Program} {c : Clause} {a : Assignment}

/-- The assignment `a` of a program is the clause `c`. -/
structure Program.Places (p : Program) (a : Assignment) (c : Clause) : Prop where
  target : p.nodes[a.dst]? = some c.target
  root : a.expr = c.tree.root
  stored : c.tree.StoredIn p.nodes

theorem Program.Laid.places {cs : List Clause} (h : p.Laid cs) (hc : c ∈ cs) :
    p.Places c.assignment c := ⟨h.target c hc, rfl, h.stored c hc⟩

namespace Program.Places

theorem dst?_eq (h : p.Places a c) : p.dst? a = some c.target := h.target

theorem tree_eq (h : p.Places a c) : p.tree a.expr = c.tree := by
  rw [h.root]
  exact h.stored.tree_eq

theorem node?_root (h : p.Places a c) {id : NodeId} {n : Node} {ts : List Tree}
    (htree : c.tree = .node id n ts) : p.node? a.expr = some n := by
  have hstored := h.stored
  rw [htree] at hstored
  rw [h.root, htree]
  exact hstored.node_eq

theorem node?_eq (h : p.Places a c) : ∃ n, p.node? a.expr = some n ∧ n.kind = c.tree.kind := by
  obtain ⟨n, ts, htree, hn⟩ := h.stored.exists_node
  exact ⟨n, h.root ▸ hn, by rw [htree, Tree.kind_node]⟩

/-- The accesses of an assignment are listed, the write first, and consist of the given indices,
fixed ones and contracted ones. -/
theorem accessesWith_spec {τ : Type} {fixed : Int → τ} {sum : Nat → τ} {P : τ → Prop}
    (h : p.Places a c) (hfits : c.Fits N find) (hfixed : ∀ k, P (fixed k)) (hsum : ∀ t, P (sum t))
    {result : List τ} (hlen : result.length = c.target.shape.length) (hP : ∀ i ∈ result, P i) :
    ∃ write reads next, p.accessesWith a fixed sum result =
        some (⟨a.dst, c.name, write, true⟩ :: reads) ∧
      c.target.subscript fixed result = some write ∧
      c.tree.readsAt fixed sum result 0 = some (reads, next) ∧
      ∀ acc ∈ (⟨a.dst, c.name, write, true⟩ :: reads : List (Access τ)), ∀ i ∈ acc.index, P i := by
  obtain ⟨s, hs, ⟨lead, hfwd, hlead⟩, -⟩ := hfits.declared
  obtain ⟨write, hwrite⟩ := exists_forward_of_length (backward_eq_some_of_forward hfwd)
    (m := c.target.fixed.map fixed ++ result) (by
      simp only [List.length_append, List.length_map, hlead.length_eq, hlen])
  obtain ⟨reads, next, hreads, hall⟩ := hfits.typed.readsAt_spec hfixed hsum
    (hlen.trans (by rw [hfits.shape])) hP 0
  have hsub : c.target.subscript fixed result = some write := hwrite
  refine ⟨write, reads, next, ?_, hsub, hreads, ?_⟩
  · rw [accessesWith, h.dst?_eq, Option.bind_eq_bind, Option.bind_some, hsub,
      Option.bind_eq_bind, Option.bind_some, h.tree_eq, hreads]
    rfl
  · intro acc hacc i hi
    rcases List.mem_cons.mp hacc with rfl | hacc
    · rw [(perm_forward hwrite).mem_iff, List.mem_append, List.mem_map] at hi
      rcases hi with ⟨k, -, rfl⟩ | hi
      · exact hfixed k
      · exact hP i hi
    · exact hall acc hacc i hi

theorem accesses_spec {P : IndexName → Prop} (h : p.Places a c) (hfits : c.Fits N find)
    (hfixed : ∀ k, P (.fixed k)) (hsum : ∀ t, P (.sum t))
    (hresult : ∀ i ∈ IndexName.results c.target.shape.length, P i) :
    ∃ write reads next, p.accesses a = some (⟨a.dst, c.name, write, true⟩ :: reads) ∧
      c.target.subscript .fixed (IndexName.results c.target.shape.length) = some write ∧
      c.tree.readsAt .fixed .sum (IndexName.results c.target.shape.length) 0 = some (reads, next) ∧
      ∀ acc ∈ (⟨a.dst, c.name, write, true⟩ :: reads : List (Access IndexName)),
        ∀ i ∈ acc.index, P i := by
  rw [accesses, h.dst?_eq]
  exact h.accessesWith_spec hfits hfixed hsum (by simp [IndexName.results]) hresult

/-- Every axis of the result has one loop, apart from the axis of the shared loop. -/
theorem loopOrder_spec (h : p.Places a c) (hfits : c.Fits N find) :
    ∃ order, p.loopOrder a = some order ∧ order.Nodup ∧
      ∀ k, k ∈ order ↔ k < c.target.shape.length ∧ some k ≠ a.fuseAxis := by
  obtain ⟨n, hn, hkind⟩ := h.node?_eq
  let rank := c.target.shape.rank
  let axes : IndexName → Prop := fun i => ∀ k ∈ i.axis?, k < rank
  have hresults : ∀ i ∈ IndexName.results rank, axes i := by
    simp only [IndexName.results, List.mem_map, List.mem_range]
    rintro _ ⟨k, hk, rfl⟩ j hj
    cases hj
    exact hk
  obtain ⟨write, reads, next, haccesses, -, -, hall⟩ := h.accesses_spec hfits (P := axes)
    (fun _ _ hk => by cases hk) (fun _ _ hk => by cases hk) hresults
  suffices H : ∀ used : List IndexName, (∀ i ∈ used, axes i) →
      (∀ i ∈ IndexName.results rank, i ∈ used) →
      ((used.filterMap IndexName.axis?).eraseDups.filter (some · ≠ a.fuseAxis)).Nodup ∧
        ∀ k, k ∈ (used.filterMap IndexName.axis?).eraseDups.filter (some · ≠ a.fuseAxis) ↔
          k < rank ∧ some k ≠ a.fuseAxis by
    by_cases hk : n.kind = .contraction
    · refine ⟨_, ?_, H (IndexName.results rank) hresults fun i hi => hi⟩
      simp only [loopOrder, h.dst?_eq, hn, hk, if_true, Option.bind_eq_bind, Option.bind_some,
        Option.pure_def, rank]
    · refine ⟨_, ?_, H ((reads ++ [(⟨a.dst, c.name, write, true⟩ : Access IndexName)]).flatMap
        (·.index) ++ IndexName.results rank) (fun i hi => ?_) fun i hi => List.mem_append_right _ hi⟩
      · simp only [loopOrder, h.dst?_eq, hn, hk, if_false, haccesses, Option.bind_eq_bind,
          Option.bind_some, Option.pure_def, rank]
      · rcases List.mem_append.mp hi with hi | hi
        · obtain ⟨acc, hacc, hi⟩ := List.mem_flatMap.mp hi
          refine hall acc ?_ i hi
          simp only [List.mem_append, List.mem_singleton] at hacc
          exact List.mem_cons.mpr hacc.symm
        · exact hresults i hi
  intro used haxes hused
  refine ⟨(nodup_eraseDups _).filter _, fun k => ?_⟩
  rw [List.mem_filter, List.mem_eraseDups, List.mem_filterMap]
  simp only [ne_eq, decide_not, Bool.not_eq_eq_eq_not, Bool.not_true, decide_eq_false_iff_not]
  refine and_congr_left fun _ => ⟨?_, fun hk => ?_⟩
  · rintro ⟨i, hi, hik⟩
    exact haxes i hi k hik
  · refine ⟨.result k, hused _ ?_, rfl⟩
    exact List.mem_map_of_mem (List.mem_range.mpr hk)

/-- The loops of an assignment visit each index of the result once, at the given value of the shared
loop. -/
theorem loops_spec (h : p.Places a c) (hfits : c.Fits K find) {f : Int}
    (hf : ∀ k ∈ a.fuseAxis, ∃ d, c.target.shape[k]? = some d ∧ 0 ≤ f ∧ f < d) :
    ∃ order extents start, p.loopOrder a = some order ∧
      order.mapM (c.target.shape[·]?) = some extents ∧
      startIndex c.target.shape.rank a.fuseAxis f = some start ∧ (∀ d ∈ extents, 0 < d) ∧
      ((indices extents).map fun loops => placeLoops order loops start).Nodup ∧
      ∀ idx, idx ∈ (indices extents).map (fun loops => placeLoops order loops start) ↔
        InRange c.target.shape idx ∧ AtShared a.fuseAxis f idx := by
  obtain ⟨order, horder, hnd, hmem⟩ := h.loopOrder_spec hfits
  have hpos : ∀ d ∈ c.target.shape, 0 < d := hfits.shape ▸ K.pos hfits.typed.mem
  obtain ⟨start, hstart, hlen, hat⟩ : ∃ start, startIndex c.target.shape.rank a.fuseAxis f = some start ∧
      start.length = c.target.shape.length ∧ AtShared a.fuseAxis f start := by
    cases hfuse : a.fuseAxis with
    | none => exact ⟨_, rfl, List.length_replicate, atShared_none f _⟩
    | some k =>
      obtain ⟨d, hd, -⟩ := hf k hfuse
      have hk := (List.getElem?_eq_some_iff.mp hd).1
      refine ⟨(List.replicate c.target.shape.rank 0).set k f, ?_, by simp, ?_⟩
      · simp only [startIndex, setAt?, List.length_replicate, Int.toNat_natCast]
        exact if_pos ⟨Int.natCast_nonneg k, by exact_mod_cast hk⟩
      · rintro _ ⟨⟩
        exact List.getElem?_set_self (by simpa using hk)
  obtain ⟨extents, hextents, hext, hvisits, hin⟩ := exists_visits hpos hnd hmem hlen hat
    fun k hk d hd => by
      obtain ⟨d', hd', hbounds⟩ := hf k hk
      rw [hd] at hd'
      cases hd'
      exact hbounds
  exact ⟨order, extents, start, horder, hextents, hstart, hext, hvisits, hin⟩

/-- An assignment runs its loops when its destination is declared. -/
theorem runAssignment_loops (h : p.Places a c) {order : List Nat} {extents start : List Int} {f : Int}
    (horder : p.loopOrder a = some order) (hextents : order.mapM (c.target.shape[·]?) = some extents)
    (hstart : startIndex c.target.shape.rank a.fuseAxis f = some start) {α : Type} [Scalar α]
    {mem : Memory α} (hcontains : mem.contains c.name) : p.runAssignment a f mem =
      orFault (forEach extents (fun loops mem =>
        runElement c.target c.tree (placeLoops order loops start) mem) mem) := by
  have hnot : (!mem.contains c.target.name) = false := by rw [hcontains, Bool.not_true]
  rw [runAssignment, h.dst?_eq]
  show (if (!mem.contains c.target.name) = true then _ else _) = _
  rw [hnot, if_neg Bool.false_ne_true]
  refine congrArg orFault ?_
  rw [horder, Option.bind_eq_bind, Option.bind_some, hextents, Option.bind_eq_bind,
    Option.bind_some, h.tree_eq]
  cases hfuse : a.fuseAxis with
  | none =>
    rw [hfuse] at hstart
    cases hstart
    rfl
  | some k =>
    rw [hfuse, startIndex] at hstart
    simp only [hstart, Option.bind_some]

/-- An assignment computes its elements one after the other. Each index of the result is visited
once, at the given value of the shared loop. -/
theorem runAssignment_eq (h : p.Places a c) (hfits : c.Fits K find) {f : Int}
    (hf : ∀ k ∈ a.fuseAxis, ∃ d, c.target.shape[k]? = some d ∧ 0 ≤ f ∧ f < d) :
    ∃ visits : List (List Int), visits.Nodup ∧
      (∀ idx, idx ∈ visits ↔ InRange c.target.shape idx ∧ AtShared a.fuseAxis f idx) ∧
      ∀ {α : Type} [Scalar α] (mem : Memory α), mem.contains c.name → p.runAssignment a f mem =
        orFault (visits.foldlM (fun mem idx => runElement c.target c.tree idx mem) mem) := by
  obtain ⟨order, extents, start, horder, hextents, hstart, hext, hvisits, hin⟩ := h.loops_spec hfits hf
  refine ⟨_, hvisits, hin, fun mem hcontains => ?_⟩
  rw [h.runAssignment_loops horder hextents hstart hcontains, List.foldlM_map,
    ← forEach_eq_foldlM fun d hd => Int.le_of_lt (hext d hd)]

end Program.Places

end

end LoopNest
