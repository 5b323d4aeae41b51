import LoopNest.Index.Shape
import LoopNest.Proofs.Index.Swap

/-!
# The theory of index spaces

`indices` lists the indices of a shape in row-major order, each of them once, and `forEach` is the
fold over this list. `flatten` is the position of an index without the wrap of machine words: it is
what `rowMajor` computes when the elements can be counted in a word, and on indices in range it is
injective and stays below the element count. Swaps of axes take the indices of a shape to those of
the permuted shape (`swaps_represent`).
-/

namespace LoopNest

variable {σ τ : Type _}

/-! ## Indices in range -/

theorem inRange_iff_forall₂ {ds is : List Int} :
    InRange ds is ↔ List.Forall₂ (fun d i => 0 ≤ i ∧ i < d) ds is := by
  constructor
  · intro h
    induction h with
    | nil => exact .nil
    | cons lo hi _ ih => exact .cons ⟨lo, hi⟩ ih
  · intro h
    induction h with
    | nil => exact .nil
    | cons h _ ih => exact .cons h.1 h.2 ih

instance (ds is : List Int) : Decidable (InRange ds is) :=
  decidable_of_iff _ (Iff.symm inRange_iff_forall₂)

namespace InRange

theorem length_eq {ds is : List Int} (h : InRange ds is) : is.length = ds.length :=
  (inRange_iff_forall₂.1 h).length_eq.symm

theorem append {ds is ds' is' : List Int} (h : InRange ds is) (h' : InRange ds' is') :
    InRange (ds ++ ds') (is ++ is') := by
  induction h with
  | nil => exact h'
  | cons lo hi _ ih => exact .cons lo hi ih

theorem take {ds is : List Int} (h : InRange ds is) (n : Nat) : InRange (ds.take n) (is.take n) :=
  inRange_iff_forall₂.2 (List.forall₂_take n (inRange_iff_forall₂.1 h))

theorem drop {ds is : List Int} (h : InRange ds is) (n : Nat) : InRange (ds.drop n) (is.drop n) :=
  inRange_iff_forall₂.2 (List.forall₂_drop n (inRange_iff_forall₂.1 h))

theorem pos {ds is : List Int} (h : InRange ds is) : ∀ d ∈ ds, 0 < d := by
  induction h with
  | nil => simp
  | cons lo hi _ ih =>
    intro d hd
    rcases List.mem_cons.mp hd with rfl | hd
    · omega
    · exact ih d hd

/-- Swapping the axes of a shape and of an index alike keeps the index in range. -/
theorem forward {ds ds' is : List Int} {ps : List Swap} (h : InRange ds is)
    (hds : LoopNest.forward ps ds = some ds') :
    ∃ is', LoopNest.forward ps is = some is' ∧ InRange ds' is' := by
  obtain ⟨is', h₁, h₂⟩ := forward_rel (inRange_iff_forall₂.1 h) hds
  exact ⟨is', h₁, inRange_iff_forall₂.2 h₂⟩

theorem backward {ds ds' is : List Int} {ps : List Swap} (h : InRange ds is)
    (hds : LoopNest.backward ps ds = some ds') :
    ∃ is', LoopNest.backward ps is = some is' ∧ InRange ds' is' := h.forward hds

end InRange

/-- An index is in range for the permuted shape exactly when the index of the original that it stands
for is in range. An index of another length has no such index. -/
theorem inRange_forward_iff {shape permuted idx : List Int} {ps : List Swap}
    (h : forward ps shape = some permuted) :
    InRange permuted idx ↔ ∃ original, backward ps idx = some original ∧ InRange shape original := by
  constructor
  · intro hin
    apply hin.backward
    exact backward_eq_some_of_forward h
  · rintro ⟨original, hback, hin⟩
    obtain ⟨idx', hfwd, hin'⟩ := hin.forward h
    rw [backward_eq_some_iff, hfwd] at hback
    cases hback
    exact hin'

/-- Swaps stand for permutations of positions. The swaps selected for `perm` gather the elements at
the positions `perm`; swaps within the rank are undone by swapping back, before or after, and
swapping back along two lists takes the second list first; and an index of a permuted shape is in
range exactly when it is swapped back into the range of the shape. -/
theorem swaps_represent {n : Nat} {perm : List Int} {ps qs : List Swap}
    (hperm : perm.Perm ((List.range n).map Int.ofNat))
    (hps : firstOutside? ps n = none) (hqs : firstOutside? qs n = none) :
    (∃ swaps, permutationSwaps perm = some swaps ∧ firstOutside? swaps n = none ∧
      ∀ l : List τ, l.length = n →
        ∃ l', forward swaps l = some l' ∧ perm.mapM (at? l) = some l') ∧
    (∀ l : List τ, l.length = n →
      (∃ l', forward ps l = some l' ∧ backward ps l' = some l) ∧
      (∃ l', backward ps l = some l' ∧ forward ps l' = some l) ∧
      ∃ m l', backward qs l = some m ∧ backward ps m = some l' ∧ backward (ps ++ qs) l = some l') ∧
    ∀ shape : Shape, shape.length = n → ∃ permuted, forward ps shape = some permuted ∧
      ∀ idx, InRange permuted idx ↔
        ∃ original, backward ps idx = some original ∧ InRange shape original := by
  refine ⟨permutationSwaps_gathers hperm, ?lists, ?indices⟩
  case lists =>
    rintro l rfl
    refine ⟨exists_forward_backward hps, exists_backward_forward hps, ?_⟩
    obtain ⟨m, hm, -⟩ := exists_backward_forward hqs
    obtain ⟨l', hl', -⟩ := exists_backward_forward (length_forward hm ▸ hps)
    refine ⟨m, l', hm, hl', ?_⟩
    rw [backward_append, hm, Option.bind_some, hl']
  case indices =>
    rintro shape rfl
    obtain ⟨permuted, hpermuted, -⟩ := exists_forward_backward hps
    exact ⟨permuted, hpermuted, fun idx => inRange_forward_iff hpermuted⟩

/-- A cycle of four positions, and swaps of which two overlap and one does nothing. -/
theorem swaps_represent_cycle :
    (∃ swaps, permutationSwaps [1, 2, 3, 0] = some swaps ∧
      forward swaps ["a", "b", "c", "d"] = some ["b", "c", "d", "a"]) ∧
    ∃ original, backward [⟨0, 1⟩, ⟨1, 2⟩, ⟨0, 1⟩] [4, 2, 1, 6] = some original ∧
      InRange [2, 3, 5, 7] original := by
  obtain ⟨⟨swaps, hswaps, -, hgathers⟩, -, hindices⟩ :=
    @swaps_represent String 4 [1, 2, 3, 0] [⟨0, 1⟩, ⟨1, 2⟩, ⟨0, 1⟩] [⟨2, 3⟩, ⟨3, 3⟩]
      (by decide) (by decide) (by decide)
  obtain ⟨l', hfwd, hl'⟩ := hgathers ["a", "b", "c", "d"] rfl
  cases hl'
  obtain ⟨permuted, hpermuted, hiff⟩ := hindices [2, 3, 5, 7] rfl
  cases hpermuted
  exact ⟨⟨swaps, hswaps, hfwd⟩, (hiff [4, 2, 1, 6]).mp (by decide)⟩

/-- A shape with positive extents has an index. -/
theorem exists_inRange {s : Shape} (h : ∀ d ∈ s, 0 < d) : ∃ idx, InRange s idx := by
  induction s with
  | nil => exact ⟨[], .nil⟩
  | cons d ds ih =>
    obtain ⟨idx, hidx⟩ := ih fun e he => h e (List.mem_cons_of_mem _ he)
    exact ⟨0 :: idx, .cons (Int.le_refl 0) (h d (.head _)) hidx⟩

/-! ## Enumeration -/

/-- The indices of a shape in row-major order. -/
def indices : List Int → List (List Int)
  | [] => [[]]
  | d :: ds => (List.range d.toNat).flatMap fun (i : Nat) => (indices ds).map ((i : Int) :: ·)

theorem mem_indices {ds is : List Int} : is ∈ indices ds ↔ InRange ds is := by
  induction ds generalizing is with
  | nil =>
    simp only [indices, List.mem_singleton]
    constructor
    · rintro rfl
      exact .nil
    · rintro ⟨⟩
      rfl
  | cons d ds ih =>
    simp only [indices, List.mem_flatMap, List.mem_range, List.mem_map, ih]
    constructor
    · rintro ⟨i, hi, is, his, rfl⟩
      exact .cons (by omega) (by omega) his
    · rintro (_ | ⟨lo, hi, his⟩)
      rename_i i is
      exact ⟨i.toNat, by omega, is, his, by rw [Int.toNat_of_nonneg lo]⟩

theorem nodup_indices (ds : List Int) : (indices ds).Nodup := by
  induction ds with
  | nil => simp [indices]
  | cons d ds ih =>
    refine List.nodup_flatMap.mpr ⟨fun i _ => ih.map fun a b hab => (List.cons.inj hab).2, ?_⟩
    refine List.nodup_range.imp fun {a b} hne => ?_
    simp only [Function.onFun, List.disjoint_left, List.mem_map]
    rintro _ ⟨x, _, rfl⟩ ⟨y, _, hy⟩
    exact hne (Int.ofNat.inj (List.cons.inj hy).1.symm)

theorem loop_eq_foldlM (n : Nat) (start : Int) (f : Int → σ → Option σ) (s : σ) :
    loop n start f s = (List.range n).foldlM (fun s (i : Nat) => f (start + i) s) s := by
  induction n generalizing start s with
  | zero => rfl
  | succ n ih =>
    rw [List.range_succ_eq_map, List.foldlM_cons, loop]
    simp only [List.foldlM_map, Int.natCast_zero, Int.add_zero]
    cases f start s with
    | none => rfl
    | some s' =>
      rw [Option.bind_some, ih]
      simp only [Nat.succ_eq_add_one, Int.natCast_add, Int.natCast_one, Int.add_assoc,
        Int.add_comm 1]
      rfl

theorem foldlM_flatMap {g : τ → List ι} {f : σ → ι → Option σ} (l : List τ) (s : σ) :
    (l.flatMap g).foldlM f s = l.foldlM (fun s x => (g x).foldlM f s) s := by
  induction l generalizing s with
  | nil => rfl
  | cons x l ih =>
    rw [List.flatMap_cons, List.foldlM_append, List.foldlM_cons]
    exact bind_congr fun s' => ih s'

theorem forEachFrom_eq_foldlM {dims : List Int} (h : ∀ d ∈ dims, 0 < d)
    (f : List Int → σ → Option σ) (s : σ) :
    forEachFrom dims f s = (indices dims).foldlM (fun s idx => f idx s) s := by
  induction dims generalizing f s with
  | nil =>
    simp only [forEachFrom, indices, List.foldlM_cons, List.foldlM_nil, bind_pure]
  | cons d dims ih =>
    have hd : max 1 d.toNat = d.toNat := by
      have := h d (.head _)
      omega
    rw [forEachFrom, hd, loop_eq_foldlM, indices, foldlM_flatMap]
    congr 1
    funext s i
    rw [Int.zero_add, ih fun d hd => h d (List.mem_cons_of_mem _ hd), List.foldlM_map]

/-- A shape with an axis of length zero has no index. -/
theorem indices_eq_nil {dims : List Int} (h : 0 ∈ dims) : indices dims = [] :=
  List.eq_nil_iff_forall_not_mem.mpr fun _ hidx =>
    absurd ((mem_indices.1 hidx).pos 0 h) (Int.lt_irrefl 0)

/-- When no extent is negative, `forEach` is the fold over the indices. -/
theorem forEach_eq_foldlM {dims : List Int} (h : ∀ d ∈ dims, 0 ≤ d)
    (f : List Int → σ → Option σ) (s : σ) :
    forEach dims f s = (indices dims).foldlM (fun s idx => f idx s) s := by
  unfold forEach
  split
  · rename_i h0
    rw [indices_eq_nil (List.contains_iff_mem.mp h0)]
    rfl
  · rename_i h0
    have hpos : ∀ d ∈ dims, 0 < d := fun d hd => by
      have hne : d ≠ 0 := fun heq => h0 (List.contains_iff_mem.mpr (heq ▸ hd))
      have := h d hd
      omega
    exact forEachFrom_eq_foldlM hpos f s

/-- The fold rule for computations that may fail: an invariant of the elements done so far. -/
theorem foldlM_invariant {f : σ → τ → Option σ} (Inv : List τ → σ → Prop) {l : List τ} {s : σ}
    (init : Inv [] s)
    (step : ∀ done x rest s, l = done ++ x :: rest → Inv done s →
      ∃ s', f s x = some s' ∧ Inv (done ++ [x]) s') :
    ∃ s', l.foldlM f s = some s' ∧ Inv l s' := by
  suffices H : ∀ rest done s, l = done ++ rest → Inv done s →
      ∃ s', rest.foldlM f s = some s' ∧ Inv (done ++ rest) s' by
    simpa using H l [] s rfl init
  intro rest
  induction rest with
  | nil =>
    intro done s _ h
    exact ⟨s, rfl, by simpa using h⟩
  | cons x rest ih =>
    intro done s hl h
    obtain ⟨s₁, h₁, h₂⟩ := step done x rest s hl h
    obtain ⟨s₂, h₃, h₄⟩ := ih (done ++ [x]) s₁ (by simpa using hl) h₂
    refine ⟨s₂, ?_, by simpa using h₄⟩
    rw [List.foldlM_cons, h₁]
    exact h₃

/-! ## Positions -/

namespace Shape

@[simp] theorem count_nil : count [] = 1 := rfl

@[simp] theorem count_cons (d : Int) (s : Shape) : count (d :: s) = d * count s := rfl

theorem count_append (s t : Shape) : count (s ++ t) = count s * count t := by
  induction s with
  | nil => simp
  | cons d s ih => simp [ih, Int.mul_assoc]

theorem count_perm {s t : Shape} (h : s.Perm t) : count s = count t := by
  induction h with
  | nil => rfl
  | cons d _ ih => simp [ih]
  | swap a b s =>
    simp only [count_cons]
    rw [← Int.mul_assoc, ← Int.mul_assoc, Int.mul_comm a b]
  | trans _ _ ih₁ ih₂ => exact ih₁.trans ih₂

theorem count_pos {s : Shape} (h : ∀ d ∈ s, 0 < d) : 0 < count s := by
  induction s with
  | nil => simp
  | cons d s ih =>
    exact Int.mul_pos (h d (.head _)) (ih fun e he => h e (List.mem_cons_of_mem _ he))

theorem count_nonneg {s : Shape} (h : ∀ d ∈ s, 0 ≤ d) : 0 ≤ count s := by
  induction s with
  | nil => simp
  | cons d s ih =>
    exact Int.mul_nonneg (h d (.head _)) (ih fun e he => h e (List.mem_cons_of_mem _ he))

theorem le_count {s : Shape} (h : ∀ d ∈ s, 0 < d) {d : Int} (hd : d ∈ s) : d ≤ count s := by
  induction s with
  | nil => simp at hd
  | cons e s ih =>
    have hs := count_pos fun e he => h e (List.mem_cons_of_mem _ he)
    have he := h e (.head _)
    rw [count_cons]
    rcases List.mem_cons.mp hd with rfl | hd
    · have := Int.mul_le_mul_of_nonneg_left (show (1 : Int) ≤ count s by omega) (Int.le_of_lt he)
      omega
    · have h₁ := ih (fun e he => h e (List.mem_cons_of_mem _ he)) hd
      have := Int.mul_le_mul_of_nonneg_right (show (1 : Int) ≤ e by omega) (Int.le_of_lt hs)
      omega

theorem size_foldl (s : Shape) (n : Int) :
    s.foldl (fun n d => word64 (n * d)) (word64 n) = word64 (n * count s) := by
  induction s generalizing n with
  | nil => simp
  | cons d s ih =>
    rw [List.foldl_cons, show word64 (word64 n * d) = word64 (n * d) from Int.bmod_mul_bmod, ih,
      count_cons, Int.mul_assoc]

/-- The element count is the true product, as a word. -/
theorem size_eq_word (s : Shape) : size s = word64 (count s) := by
  rw [size, show (1 : Int) = word64 1 from rfl, size_foldl, Int.one_mul]

/-- The element count is the true product when that fits in a word. -/
theorem size_eq_count {s : Shape} (h : ∀ d ∈ s, 0 < d) (hc : count s < 0x8000000000000000) :
    size s = count s := by
  have := count_pos h
  rw [size_eq_word, word64_of_fits (by omega) hc]

end Shape

/-- The row-major position of an index. -/
def flatten : List Int → List Int → Int
  | _ :: ds, i :: is => i * Shape.count ds + flatten ds is
  | _, _ => 0

@[simp] theorem flatten_nil (ds : List Int) : flatten ds [] = 0 := by
  cases ds <;> rfl

@[simp] theorem flatten_cons (d i : Int) (ds is : List Int) :
    flatten (d :: ds) (i :: is) = i * Shape.count ds + flatten ds is := rfl

theorem flatten_bounds {ds is : List Int} (h : InRange ds is) :
    0 ≤ flatten ds is ∧ flatten ds is < Shape.count ds := by
  induction h with
  | nil => simp
  | @cons i d ds is lo hi h ih =>
    have hc := Shape.count_pos h.pos
    have h₁ : 0 ≤ i * Shape.count ds := Int.mul_nonneg lo (Int.le_of_lt hc)
    have h₂ : (i + 1) * Shape.count ds ≤ d * Shape.count ds :=
      Int.mul_le_mul_of_nonneg_right (by omega) (Int.le_of_lt hc)
    rw [Int.add_mul] at h₂
    simp only [flatten_cons, Shape.count_cons]
    omega

theorem flatten_inj {ds is js : List Int} (hi : InRange ds is) (hj : InRange ds js)
    (h : flatten ds is = flatten ds js) : is = js := by
  induction hi generalizing js with
  | nil =>
    cases hj
    rfl
  | @cons i d ds is lo hi his ih =>
    cases hj with
    | @cons j _ _ js lo' hi' hjs =>
      have hb := flatten_bounds his
      have hb' := flatten_bounds hjs
      simp only [flatten_cons] at h
      have hij : i = j := by
        have h₁ : (i * Shape.count ds + flatten ds is) / Shape.count ds = i := by
          rw [Int.add_comm, Int.add_mul_ediv_right _ _ (by omega), Int.ediv_eq_zero_of_lt hb.1 hb.2]
          omega
        have h₂ : (j * Shape.count ds + flatten ds js) / Shape.count ds = j := by
          rw [Int.add_comm, Int.add_mul_ediv_right _ _ (by omega), Int.ediv_eq_zero_of_lt hb'.1 hb'.2]
          omega
        rw [← h₁, ← h₂, h]
      subst hij
      rw [ih hjs (by omega)]

theorem flatten_append {ds is ds' is' : List Int} (h : InRange ds is) :
    flatten (ds ++ ds') (is ++ is') = flatten ds is * Shape.count ds' + flatten ds' is' := by
  induction h with
  | nil => simp
  | cons lo hi _ ih =>
    simp only [List.cons_append, flatten_cons, ih, Shape.count_append, Int.add_mul, Int.mul_assoc,
      Int.add_assoc]

theorem rowMajorFrom_eq {ds is : List Int} (h : is.length = ds.length) (off : Int) :
    rowMajorFrom (word64 off) ds is = some (word64 (off * Shape.count ds + flatten ds is)) := by
  induction ds generalizing is off with
  | nil =>
    cases List.eq_nil_of_length_eq_zero h
    simp [rowMajorFrom]
  | cons d ds ih =>
    cases is with
    | nil => cases h
    | cons i is =>
      have hword : word64 (word64 off * d + i) = word64 (off * d + i) := by
        rw [word64, ← Int.bmod_add_bmod, show (word64 off * d).bmod _ = _ from Int.bmod_mul_bmod,
          Int.bmod_add_bmod, word64]
      rw [rowMajorFrom, hword, ih (Nat.succ.inj h), flatten_cons, Shape.count_cons, Int.add_mul,
        Int.mul_assoc, Int.add_assoc]

/-- The position of an index with one coordinate per axis, as a word. -/
theorem rowMajor_eq_word {ds is : List Int} (h : is.length = ds.length) :
    rowMajor ds is = some (word64 (flatten ds is)) := by
  rw [rowMajor, show (0 : Int) = word64 0 from rfl, rowMajorFrom_eq h, Int.zero_mul, Int.zero_add]

/-- The position of an index in range, when the elements can be counted in a word. -/
theorem rowMajor_eq {ds is : List Int} (h : InRange ds is)
    (hc : Shape.count ds ≤ 0x8000000000000000) : rowMajor ds is = some (flatten ds is) := by
  have hb := flatten_bounds h
  rw [rowMajor_eq_word h.length_eq, word64_of_fits (by omega) (by omega)]

/-- Every position below the element count is that of an index. -/
theorem exists_flatten {ds : List Int} (h : ∀ d ∈ ds, 0 ≤ d) {o : Int} (lo : 0 ≤ o)
    (hi : o < Shape.count ds) : ∃ is, InRange ds is ∧ flatten ds is = o := by
  induction ds generalizing o with
  | nil =>
    refine ⟨[], .nil, ?_⟩
    rw [flatten_nil]
    rw [Shape.count_nil] at hi
    omega
  | cons d ds ih =>
    have hds : ∀ e ∈ ds, 0 ≤ e := fun e he => h e (List.mem_cons_of_mem _ he)
    have hne : Shape.count ds ≠ 0 := fun h0 => by
      rw [Shape.count_cons, h0] at hi
      omega
    have hc : 0 < Shape.count ds := by
      have := Shape.count_nonneg hds
      omega
    obtain ⟨is, his, hflat⟩ := ih hds (Int.emod_nonneg o (by omega)) (Int.emod_lt_of_pos o hc)
    refine ⟨o / Shape.count ds :: is, .cons (Int.ediv_nonneg lo (by omega)) ?_ his, ?_⟩
    · exact Int.ediv_lt_of_lt_mul hc hi
    · rw [flatten_cons, hflat, Int.mul_comm, Int.mul_ediv_add_emod]

end LoopNest
