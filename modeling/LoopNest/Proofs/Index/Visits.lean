import LoopNest.Proofs.Index.Space

/-!
# The indices that loops visit

`forEach` is a fold over the indices that it visits, whatever the extents are (`forEach_eq_visits`).
They are the indices of the shape unless an extent is negative: such an axis is visited once, at zero.
A counter visits the same (`odometer_eq_forEach`): its step goes to the next position in memory
(`advance_spec`), so it visits each index of a shape once and in the order of the positions
(`odometer_visits`).
-/

namespace LoopNest

variable {σ : Type _} {dims idx : List Int}

/-- The indices that one loop per axis visits, in order. -/
def visits (dims : List Int) : List (List Int) :=
  if 0 ∈ dims then [] else indices (dims.map (max 1))

theorem mem_visits : idx ∈ visits dims ↔ 0 ∉ dims ∧ InRange (dims.map (max 1)) idx := by
  unfold visits
  split
  · simp_all
  · simp_all [mem_indices]

theorem nodup_visits (dims : List Int) : (visits dims).Nodup := by
  unfold visits
  split
  · exact List.nodup_nil
  · exact nodup_indices _

theorem length_of_mem_visits (h : idx ∈ visits dims) : idx.length = dims.length := by
  simpa using (mem_visits.1 h).2.length_eq

/-- Without negative extents, every index is visited. -/
theorem visits_eq_indices (h : ∀ d ∈ dims, 0 ≤ d) : visits dims = indices dims := by
  unfold visits
  split
  · rename_i h0
    exact (indices_eq_nil h0).symm
  · rename_i h0
    congr 1
    refine (List.map_congr_left fun d hd => ?_).trans (List.map_id _)
    have := h d hd
    have : d ≠ 0 := fun h => h0 (h ▸ hd)
    show max 1 d = d
    omega

/-- The positions of the indices of a shape are counted from zero. -/
theorem map_flatten_indices (h : ∀ d ∈ dims, 0 ≤ d) :
    (indices dims).map (flatten dims) = (List.range (Shape.count dims).toNat).map Int.ofNat := by
  induction dims with
  | nil => rfl
  | cons d dims ih =>
    rw [List.forall_mem_cons] at h
    obtain ⟨n, rfl⟩ := Int.eq_ofNat_of_zero_le h.1
    obtain ⟨m, hm⟩ := Int.eq_ofNat_of_zero_le (Shape.count_nonneg h.2)
    have hrow : ∀ i : Nat, ((indices dims).map ((i : Int) :: ·)).map (flatten (n :: dims)) =
        (List.range m).map fun k => Int.ofNat (i * m + k) := by
      intro i
      rw [List.map_map, show flatten (n :: dims) ∘ ((i : Int) :: ·) =
        (fun o => (i : Int) * m + o) ∘ flatten dims from funext fun is => by
          rw [Function.comp_apply, flatten_cons, hm]; rfl, ← List.map_map, ih h.2, hm, List.map_map]
      exact List.map_congr_left fun k _ => by simp
    rw [indices, List.map_flatMap, Shape.count_cons, hm, ← Int.natCast_mul, Int.toNat_natCast,
      Int.toNat_natCast]
    simp only [hrow]
    clear hrow h
    induction n with
    | zero => simp
    | succ n ih =>
      rw [List.range_succ, List.flatMap_append, ih, Nat.succ_mul, List.range_add, List.map_append,
        List.flatMap_singleton, List.map_map]
      rfl

theorem map_rowMajor_indices (h : ∀ d ∈ dims, 0 ≤ d) (hcount : Shape.count dims < 0x8000000000000000) :
    (indices dims).map (rowMajor dims) =
      (List.range (Shape.size dims).toNat).map fun (o : Nat) => some (o : Int) := by
  have hnonneg := Shape.count_nonneg h
  have hposition : ∀ idx ∈ indices dims, rowMajor dims idx = (some ∘ flatten dims) idx :=
    fun idx hidx => rowMajor_eq (mem_indices.mp hidx) (Int.le_of_lt hcount)
  rw [List.map_congr_left hposition, ← List.map_map, map_flatten_indices h, List.map_map,
    Shape.size_eq_word, word64_of_fits (by omega) hcount]
  rfl

theorem forEachFrom_map_max (dims : List Int) (f : List Int → σ → Option σ) (s : σ) :
    forEachFrom (dims.map (max 1)) f s = forEachFrom dims f s := by
  induction dims generalizing f s with
  | nil => rfl
  | cons d dims ih =>
    have hd : max 1 (max 1 d).toNat = max 1 d.toNat := by omega
    rw [List.map_cons, forEachFrom, forEachFrom, hd]
    exact congrArg (fun g => loop _ 0 g s) (funext fun i => funext fun s => ih _ s)

/-- Nested loops are a fold over the indices that they visit. -/
theorem forEach_eq_visits (dims : List Int) (f : List Int → σ → Option σ) (s : σ) :
    forEach dims f s = (visits dims).foldlM (fun s idx => f idx s) s := by
  unfold forEach visits
  by_cases h0 : 0 ∈ dims
  · rw [if_pos (List.contains_iff_mem.mpr h0), if_pos h0]
    rfl
  · rw [if_neg (by simpa using h0), if_neg h0, ← forEachFrom_map_max, forEachFrom_eq_foldlM]
    simp only [List.mem_map, forall_exists_index, and_imp, forall_apply_eq_imp_iff₂]
    omega

/-- Of several parts, all but one are empty. -/
theorem flatMap_eq_of_forall_ne {τ : Type _} {l : List σ} {f : σ → List τ} {x : σ} (hnd : l.Nodup) (hx : x ∈ l)
    (h : ∀ y ∈ l, y ≠ x → f y = []) : l.flatMap f = f x := by
  induction l with
  | nil => cases hx
  | cons y l ih =>
    obtain ⟨hnot, hnd⟩ := List.nodup_cons.mp hnd
    rw [List.flatMap_cons]
    rcases List.mem_cons.mp hx with rfl | hx
    · rw [List.flatMap_eq_nil_iff.mpr fun z hz => h z (List.mem_cons_of_mem _ hz) fun heq =>
        hnot (heq ▸ hz), List.append_nil]
    · rw [h y (.head _) fun heq => hnot (heq ▸ hx), List.nil_append,
        ih hnd hx fun z hz => h z (List.mem_cons_of_mem _ hz)]

/-! ## Folds that may fail -/

section

variable {τ : Type _} {f : σ → τ → Option σ} {l : List τ} {s : σ}

/-- What every step preserves holds at the end. -/
theorem foldlM_preserves (P : σ → Prop) (hs : P s) (h : ∀ s, ∀ x ∈ l, P s → ∀ s', f s x = some s' → P s')
    {s' : σ} (hrun : l.foldlM f s = some s') : P s' := by
  induction l generalizing s with
  | nil =>
    cases hrun
    exact hs
  | cons x l ih =>
    rw [List.foldlM_cons, Option.bind_eq_bind, Option.bind_eq_some_iff] at hrun
    obtain ⟨s₁, hstep, hrun⟩ := hrun
    exact ih (h s x (.head _) hs s₁ hstep) (fun s y hy => h s y (List.mem_cons_of_mem _ hy)) hrun

/-- Steps that are the same as long as something holds, which they preserve. -/
theorem foldlM_congr_of_preserves {g : σ → τ → Option σ} (P : σ → Prop) (hs : P s)
    (h : ∀ s, ∀ x ∈ l, P s → f s x = g s x ∧ ∀ s', g s x = some s' → P s') :
    l.foldlM f s = l.foldlM g s := by
  induction l generalizing s with
  | nil => rfl
  | cons x l ih =>
    obtain ⟨hx, hP⟩ := h s x (.head _) hs
    rw [List.foldlM_cons, List.foldlM_cons, hx]
    exact Option.bind_congr fun s' hs' => ih (hP s' hs') fun s y hy => h s y (List.mem_cons_of_mem _ hy)

/-- When it depends on the elements alone which steps can be done, a fold has a result if all of them
can. -/
theorem isSome_foldlM_iff (P : σ → Prop) {Q : τ → Prop} (hs : P s)
    (h : ∀ s, ∀ x ∈ l, P s → ((f s x).isSome ↔ Q x) ∧ ∀ s', f s x = some s' → P s') :
    (l.foldlM f s).isSome ↔ ∀ x ∈ l, Q x := by
  induction l generalizing s with
  | nil => simp
  | cons x l ih =>
    obtain ⟨hx, hP⟩ := h s x (.head _) hs
    have hrest : ∀ s y, y ∈ l → P s → ((f s y).isSome ↔ Q y) ∧ ∀ s', f s y = some s' → P s' :=
      fun s y hy => h s y (List.mem_cons_of_mem _ hy)
    rw [List.foldlM_cons, List.forall_mem_cons, ← hx]
    cases hstep : f s x with
    | none => simp
    | some s₁ =>
      rw [Option.bind_eq_bind, Option.bind_some, ih (hP s₁ hstep) hrest]
      simp

end

/-! ## Counting -/

/-- The zeros are an index of every shape with positive extents. -/
theorem inRange_zeros (h : ∀ d ∈ dims, 0 < d) : InRange dims (dims.map fun _ => 0) := by
  induction dims with
  | nil => exact .nil
  | cons d dims ih =>
    rw [List.forall_mem_cons] at h
    exact .cons (Int.le_refl 0) h.1 (ih h.2)

theorem flatten_zeros (dims : List Int) : ∀ idx : List Int, flatten dims (idx.map fun _ => 0) = 0 := by
  induction dims with
  | nil => exact fun idx => by cases idx <;> rfl
  | cons d dims ih =>
    intro idx
    cases idx with
    | nil => rfl
    | cons i idx => rw [List.map_cons, flatten_cons, ih, Int.zero_mul, Int.zero_add]

/-- A step of the counter: the digits that carry stand for the last position of the axes on their
right, and starting them again with one more on their left is the position after it. An axis whose
extent is not positive has the one digit zero. -/
theorem advance_spec (h : InRange (dims.map (max 1)) idx) :
    (∃ next, advance dims idx = some next ∧ InRange (dims.map (max 1)) next ∧
      flatten (dims.map (max 1)) next = flatten (dims.map (max 1)) idx + 1) ∨
    (advance dims idx = none ∧
      flatten (dims.map (max 1)) idx + 1 = Shape.count (dims.map (max 1))) := by
  induction dims generalizing idx with
  | nil =>
    cases h
    exact .inr ⟨rfl, rfl⟩
  | cons d dims ih =>
    rw [List.map_cons] at h ⊢
    cases h with
    | @cons i _ _ idx lo hi hidx =>
      rcases ih hidx with ⟨next, hnext, hin, hflat⟩ | ⟨hnone, hflat⟩
      · left
        refine ⟨i :: next, by rw [advance, hnext], .cons lo hi hin, ?_⟩
        rw [flatten_cons, flatten_cons, hflat, Int.add_assoc]
      · have hcarry : i * Shape.count (dims.map (max 1)) + flatten (dims.map (max 1)) idx + 1 =
            (i + 1) * Shape.count (dims.map (max 1)) := by
          rw [Int.add_assoc, hflat, Int.add_mul, Int.one_mul]
        by_cases hd : i + 1 < d
        · left
          refine ⟨(i + 1) :: idx.map fun _ => 0, by rw [advance, hnone]; exact if_pos hd,
            .cons (by omega) (by omega) ?_, ?_⟩
          · have hlen : idx.map (fun _ => (0 : Int)) = (dims.map (max 1)).map fun _ => 0 := by
              simp [List.map_const', Function.comp_def, hidx.length_eq]
            exact hlen ▸ inRange_zeros hidx.pos
          · rw [flatten_cons, flatten_cons, flatten_zeros, Int.add_zero, hcarry]
        · right
          refine ⟨by rw [advance, hnone]; exact if_neg hd, ?_⟩
          rw [flatten_cons, hcarry, Shape.count_cons, show i + 1 = max 1 d by omega]

theorem length_indices (h : ∀ d ∈ dims, 0 ≤ d) : (indices dims).length = (Shape.count dims).toNat := by
  simpa using congrArg List.length (map_flatten_indices h)

/-- The indices of a shape are in the order of their positions. -/
theorem getElem?_indices_eq_some_iff (h : ∀ d ∈ dims, 0 ≤ d) {n : Nat} :
    (indices dims)[n]? = some idx ↔ InRange dims idx ∧ flatten dims idx = n := by
  have hnth : ∀ {n : Nat} {idx : List Int}, (indices dims)[n]? = some idx → flatten dims idx = n := by
    intro n idx hidx
    have hmap := congrArg (·[n]?) (map_flatten_indices h)
    have hlt := length_indices h ▸ (List.getElem?_eq_some_iff.mp hidx).1
    rw [List.getElem?_map, hidx, List.getElem?_map, List.getElem?_range hlt] at hmap
    exact Option.some.inj hmap
  constructor
  · exact fun hidx => ⟨mem_indices.mp (List.mem_of_getElem? hidx), hnth hidx⟩
  · rintro ⟨hin, hflat⟩
    have hlt : n < (indices dims).length := by
      have := (flatten_bounds hin).2
      rw [length_indices h]
      omega
    obtain ⟨idx', hidx'⟩ : ∃ idx', (indices dims)[n]? = some idx' := ⟨_, List.getElem?_eq_getElem hlt⟩
    rw [hidx', flatten_inj (mem_indices.mp (List.mem_of_getElem? hidx')) hin
      ((hnth hidx').trans hflat.symm)]

/-- Counting from an index on visits the indices from its position on, by induction on their number. -/
theorem countFrom_eq (f : List Int → σ → Option σ) (h : InRange (dims.map (max 1)) idx) (s : σ) :
    countFrom dims f idx s =
      ((indices (dims.map (max 1))).drop (flatten (dims.map (max 1)) idx).toNat).foldlM
        (fun s idx => f idx s) s := by
  have hpos : ∀ d ∈ dims.map (max 1), 0 ≤ d := fun d hd => Int.le_of_lt (h.pos d hd)
  obtain ⟨k, hk⟩ : ∃ k : Nat, flatten (dims.map (max 1)) idx + k = Shape.count (dims.map (max 1)) :=
    ⟨(Shape.count (dims.map (max 1)) - flatten (dims.map (max 1)) idx).toNat, by
      have := (flatten_bounds h).2
      omega⟩
  induction k generalizing idx s with
  | zero =>
    have := (flatten_bounds h).2
    omega
  | succ k ih =>
    have lo := (flatten_bounds h).1
    rw [countFrom, List.drop_eq_getElem?_toList_append,
      (getElem?_indices_eq_some_iff hpos).mpr ⟨h, (Int.toNat_of_nonneg lo).symm⟩, Option.toList_some,
      List.singleton_append, List.foldlM_cons]
    refine bind_congr fun s' => ?_
    -- The cases are those of the definition; that of `advance_spec` has to be the same one.
    have hstep := advance_spec h
    split
    next next hnext =>
      rcases hstep with ⟨_, hsome, hin, hflat⟩ | ⟨hlast, _⟩
      · obtain rfl := Option.some.inj (hnext.symm.trans hsome)
        rw [ih hin s' (by omega), hflat]
        congr 2
        omega
      · cases hnext.symm.trans hlast
    next hnone =>
      rcases hstep with ⟨_, hsome, _⟩ | ⟨_, hflat⟩
      · cases hnone.symm.trans hsome
      · rw [List.drop_of_length_le (by rw [length_indices hpos]; omega), List.foldlM_nil]
        rfl

/-- The counter and nested loops do the same. -/
theorem odometer_eq_forEach (dims : List Int) (f : List Int → σ → Option σ) (s : σ) :
    odometer dims f s = forEach dims f s := by
  rw [forEach_eq_visits, odometer, visits]
  by_cases h0 : 0 ∈ dims
  · rw [if_pos (List.contains_iff_mem.mpr h0), if_pos h0]
    rfl
  · have hzeros : dims.map (fun _ => (0 : Int)) = (dims.map (max 1)).map fun _ => 0 := by
      simp [Function.comp_def]
    have hpos : ∀ d ∈ dims.map (max 1), 0 < d := by
      simp only [List.mem_map, forall_exists_index, and_imp, forall_apply_eq_imp_iff₂]
      omega
    rw [if_neg (by simpa using h0), if_neg h0, hzeros, countFrom_eq f (inRange_zeros hpos),
      flatten_zeros]
    rfl

/-- Counting through a shape makes one call for each element and ends, and so do nested loops. The
call with the number `n` is for the one index in range whose position in memory is `n`. -/
theorem odometer_visits (hpos : ∀ d ∈ dims, 0 < d) (hcount : Shape.count dims < 0x8000000000000000) :
    ∃ calls : List (List Int),
      odometer dims (fun idx made => some (made ++ [idx])) [] = some calls ∧
      (calls.length : Int) = Shape.size dims ∧
      (∀ (n : Nat) (idx : List Int),
        calls[n]? = some idx ↔ InRange dims idx ∧ rowMajor dims idx = some (n : Int)) ∧
      ∀ {σ : Type} (f : List Int → σ → Option σ) (s : σ),
        odometer dims f s = calls.foldlM (fun s idx => f idx s) s ∧
        forEach dims f s = calls.foldlM (fun s idx => f idx s) s := by
  have hnonneg : ∀ d ∈ dims, 0 ≤ d := fun d hd => Int.le_of_lt (hpos d hd)
  have hruns : ∀ {σ : Type} (f : List Int → σ → Option σ) (s : σ),
      forEach dims f s = (indices dims).foldlM (fun s idx => f idx s) s := forEach_eq_foldlM hnonneg
  refine ⟨indices dims, ?recorded, ?length, ?nth, fun f s => ⟨?_, hruns f s⟩⟩
  case recorded =>
    obtain ⟨_, hrun, rfl⟩ := foldlM_invariant (l := indices dims)
      (f := fun made idx => some (made ++ [idx])) (fun done made => made = done) rfl
      fun done idx rest made _ hmade => ⟨_, rfl, by rw [hmade]⟩
    rw [odometer_eq_forEach, hruns, hrun]
  case length =>
    have := Shape.count_nonneg hnonneg
    rw [length_indices hnonneg, Shape.size_eq_count hpos hcount, Int.toNat_of_nonneg this]
  case nth =>
    intro n idx
    rw [getElem?_indices_eq_some_iff hnonneg]
    refine and_congr_right fun hin => ?_
    rw [rowMajor_eq hin (Int.le_of_lt hcount), Option.some_inj]
  case _ => rw [odometer_eq_forEach, hruns]

/-- The shape of a scalar has one call, and an axis of length one has no step of its own. -/
theorem odometer_visits_slab :
    (∃ calls, odometer [] (fun idx made => some (made ++ [idx])) [] = some calls ∧
      calls[0]? = some [] ∧ calls.length = 1) ∧
    ∃ calls, odometer [2, 1, 3] (fun idx made => some (made ++ [idx])) [] = some calls ∧
      calls[2]? = some [0, 0, 2] ∧ calls[3]? = some [1, 0, 0] ∧ calls.length = 6 := by
  constructor
  · obtain ⟨calls, hrecorded, hlength, hnth, -⟩ := @odometer_visits [] (by decide) (by decide)
    have hone : (calls.length : Int) = 1 := hlength
    exact ⟨calls, hrecorded, (hnth 0 []).mpr ⟨.nil, rfl⟩, by omega⟩
  · obtain ⟨calls, hrecorded, hlength, hnth, -⟩ :=
      @odometer_visits [2, 1, 3] (by decide) (by decide)
    have hsix : (calls.length : Int) = 6 := hlength
    exact ⟨calls, hrecorded, (hnth 2 [0, 0, 2]).mpr ⟨by decide, by decide⟩,
      (hnth 3 [1, 0, 0]).mpr ⟨by decide, by decide⟩, by omega⟩

end LoopNest
