import LoopNest.Index.Swap
import Mathlib.Data.List.Forall2
import Mathlib.Data.List.Nodup
import Mathlib.Data.List.Perm.Basic

/-!
# The theory of swaps

Swaps only look at positions, so they commute with everything that works element by element. This
is `forward_rel`: lists that are related position by position stay related. Taking the relation to
be "the coordinate lies in the extent" it gives bounds, and taking it to be the graph of a function
it gives naturality. Swapping back undoes swapping (`backward_eq_some_iff`), and the swaps that
`permutationSwaps` selects do carry out the permutation (`permutationSwaps_spec`).
-/

namespace LoopNest

variable {σ τ : Type _}

theorem forall₂_getElem? {R : σ → τ → Prop} {l : List σ} {m : List τ} (h : List.Forall₂ R l m)
    {i : Nat} {x : σ} (hx : l[i]? = some x) : ∃ y, m[i]? = some y ∧ R x y := by
  induction h generalizing i with
  | nil => simp at hx
  | cons hr _ ih =>
    cases i with
    | zero =>
      simp only [List.getElem?_cons_zero, Option.some.injEq] at hx
      exact ⟨_, rfl, hx ▸ hr⟩
    | succ i =>
      simp only [List.getElem?_cons_succ] at hx ⊢
      exact ih hx

theorem forall₂_set {R : σ → τ → Prop} {l : List σ} {m : List τ} (h : List.Forall₂ R l m)
    {x : σ} {y : τ} (hxy : R x y) (i : Nat) : List.Forall₂ R (l.set i x) (m.set i y) := by
  induction h generalizing i with
  | nil => exact .nil
  | cons hr hrest ih =>
    cases i with
    | zero => exact .cons hxy hrest
    | succ i => exact .cons hr (ih i)

theorem exists_of_forall₂ {R : σ → τ → Prop} {l : List σ} {m : List τ} (h : List.Forall₂ R l m)
    {y : τ} (hy : y ∈ m) : ∃ x ∈ l, R x y := by
  induction h with
  | nil => cases hy
  | cons hr _ ih =>
    rcases List.mem_cons.mp hy with rfl | hy
    · exact ⟨_, .head _, hr⟩
    · obtain ⟨x, hx, hr'⟩ := ih hy
      exact ⟨x, List.mem_cons_of_mem _ hx, hr'⟩

theorem mapM_eq_some_iff {σ τ : Type _} {f : σ → Option τ} {l : List σ} {m : List τ} :
    l.mapM f = some m ↔ List.Forall₂ (fun x y => f x = some y) l m := by
  induction l generalizing m with
  | nil => simp [eq_comm]
  | cons x l ih =>
    rw [List.mapM_cons, List.forall₂_cons_left_iff]
    simp only [Option.bind_eq_bind, Option.bind_eq_some_iff, Option.pure_def, Option.some.injEq, ih]
    constructor
    · rintro ⟨y, hy, ys, hys, rfl⟩
      exact ⟨y, ys, hy, hys, rfl⟩
    · rintro ⟨y, ys, hy, hys, rfl⟩
      exact ⟨y, hy, ys, hys, rfl⟩

theorem at?_eq_some_iff {l : List τ} {i : Int} {x : τ} :
    at? l i = some x ↔ 0 ≤ i ∧ l[i.toNat]? = some x := by
  rw [at?]
  by_cases hi : i < 0
  · rw [if_pos hi]
    exact iff_of_false (fun h => by cases h) fun h => absurd h.1 (Int.not_le.mpr hi)
  · rw [if_neg hi, and_iff_right (Int.not_lt.mp hi)]

theorem at?_lt {l : List τ} {i : Int} {x : τ} (h : at? l i = some x) : i < l.length := by
  obtain ⟨_, hx⟩ := at?_eq_some_iff.1 h
  obtain ⟨hlt, _⟩ := List.getElem?_eq_some_iff.mp hx
  omega

theorem at?_eq_getElem {l : List τ} {i : Int} (lo : 0 ≤ i) (hi : i < l.length) :
    ∃ x, at? l i = some x := by
  have h : i.toNat < l.length := by omega
  exact ⟨l[i.toNat], at?_eq_some_iff.2 ⟨lo, List.getElem?_eq_getElem h⟩⟩

theorem at?_rel {R : σ → τ → Prop} {l : List σ} {m : List τ} (h : List.Forall₂ R l m)
    {i : Int} {x : σ} (hx : at? l i = some x) : ∃ y, at? m i = some y ∧ R x y := by
  obtain ⟨hi, hx⟩ := at?_eq_some_iff.1 hx
  obtain ⟨y, hy, hr⟩ := forall₂_getElem? h hx
  exact ⟨y, at?_eq_some_iff.2 ⟨hi, hy⟩, hr⟩

namespace Swap

theorem apply_eq_some_iff {p : Swap} {l l' : List τ} :
    p.apply l = some l' ↔ ∃ x y, at? l p.a = some x ∧ at? l p.b = some y ∧
      (l.set p.a.toNat y).set p.b.toNat x = l' := by
  simp only [apply, Option.bind_eq_bind, Option.bind_eq_some_iff, Option.some.injEq, exists_and_left]

theorem apply_rel {R : σ → τ → Prop} {p : Swap} {l l' : List σ} {m : List τ}
    (h : List.Forall₂ R l m) (hl : p.apply l = some l') :
    ∃ m', p.apply m = some m' ∧ List.Forall₂ R l' m' := by
  obtain ⟨x, y, hx, hy, rfl⟩ := apply_eq_some_iff.1 hl
  obtain ⟨x', hx', hrx⟩ := at?_rel h hx
  obtain ⟨y', hy', hry⟩ := at?_rel h hy
  exact ⟨_, apply_eq_some_iff.2 ⟨x', y', hx', hy', rfl⟩, forall₂_set (forall₂_set h hry _) hrx _⟩

theorem length_apply {p : Swap} {l l' : List τ} (h : p.apply l = some l') :
    l'.length = l.length := by
  obtain ⟨x, y, _, _, rfl⟩ := apply_eq_some_iff.1 h
  simp

theorem within_of_apply {p : Swap} {l l' : List τ} (h : p.apply l = some l') :
    p.Within l.length := by
  obtain ⟨x, y, hx, hy, _⟩ := apply_eq_some_iff.1 h
  exact ⟨(at?_eq_some_iff.1 hx).1, at?_lt hx, (at?_eq_some_iff.1 hy).1, at?_lt hy⟩

theorem exists_apply {p : Swap} {l : List τ} (h : p.Within l.length) : ∃ l', p.apply l = some l' := by
  obtain ⟨x, hx⟩ := at?_eq_getElem h.1 h.2.1
  obtain ⟨y, hy⟩ := at?_eq_getElem h.2.2.1 h.2.2.2
  exact ⟨_, apply_eq_some_iff.2 ⟨x, y, hx, hy, rfl⟩⟩

/-- A swap is its own inverse. -/
theorem apply_apply {p : Swap} {l l' : List τ} (h : p.apply l = some l') : p.apply l' = some l := by
  obtain ⟨x, y, hx, hy, rfl⟩ := apply_eq_some_iff.1 h
  obtain ⟨ha, hx⟩ := at?_eq_some_iff.1 hx
  obtain ⟨hb, hy⟩ := at?_eq_some_iff.1 hy
  obtain ⟨hla, rfl⟩ := List.getElem?_eq_some_iff.mp hx
  obtain ⟨hlb, rfl⟩ := List.getElem?_eq_some_iff.mp hy
  refine apply_eq_some_iff.2 ⟨l[p.b.toNat], l[p.a.toNat], ?_, ?_, ?_⟩
  · refine at?_eq_some_iff.2 ⟨ha, ?_⟩
    rw [List.getElem?_set]
    split
    · simp_all
    · simp [hla]
  · exact at?_eq_some_iff.2 ⟨hb, by simp [hlb]⟩
  · apply List.ext_getElem (by simp)
    intro i h1 h2
    simp only [List.getElem_set]
    grind

theorem perm_apply {p : Swap} {l l' : List τ} (h : p.apply l = some l') : l'.Perm l := by
  obtain ⟨x, y, hx, hy, rfl⟩ := apply_eq_some_iff.1 h
  obtain ⟨hla, rfl⟩ := List.getElem?_eq_some_iff.mp (at?_eq_some_iff.1 hx).2
  obtain ⟨hlb, rfl⟩ := List.getElem?_eq_some_iff.mp (at?_eq_some_iff.1 hy).2
  exact List.set_set_perm hla hlb

/-- A swap behind a prefix. -/
theorem apply_append {p : Swap} {l l' : List τ} (lead : List τ) (h : p.apply l = some l') :
    apply ⟨p.a + lead.length, p.b + lead.length⟩ (lead ++ l) = some (lead ++ l') := by
  obtain ⟨x, y, hx, hy, rfl⟩ := apply_eq_some_iff.1 h
  have hat : ∀ {i : Int} {z : τ}, at? l i = some z → at? (lead ++ l) (i + lead.length) = some z ∧
      (i + lead.length).toNat = lead.length + i.toNat := by
    intro i z hz
    obtain ⟨hlo, hz⟩ := at?_eq_some_iff.1 hz
    have hi : (i + lead.length).toNat = lead.length + i.toNat := by omega
    refine ⟨at?_eq_some_iff.2 ⟨by omega, ?_⟩, hi⟩
    rw [hi, List.getElem?_append_right (Nat.le_add_right _ _), Nat.add_sub_cancel_left, hz]
  obtain ⟨hx', ha⟩ := hat hx
  obtain ⟨hy', hb⟩ := hat hy
  refine apply_eq_some_iff.2 ⟨x, y, hx', hy', ?_⟩
  rw [ha, hb, List.set_append_right _ _ (Nat.le_add_right _ _),
    List.set_append_right _ _ (Nat.le_add_right _ _), Nat.add_sub_cancel_left,
    Nat.add_sub_cancel_left]

end Swap

theorem forward_cons_eq_some_iff {p : Swap} {ps : List Swap} {l l' : List τ} :
    forward (p :: ps) l = some l' ↔ ∃ m, p.apply l = some m ∧ forward ps m = some l' := by
  rw [forward_cons, Option.bind_eq_some_iff]

/-- Swaps keep lists related that are related position by position. -/
theorem forward_rel {R : σ → τ → Prop} {ps : List Swap} {l l' : List σ} {m : List τ}
    (h : List.Forall₂ R l m) (hl : forward ps l = some l') :
    ∃ m', forward ps m = some m' ∧ List.Forall₂ R l' m' := by
  induction ps generalizing l m with
  | nil =>
    cases hl
    exact ⟨m, rfl, h⟩
  | cons p ps ih =>
    obtain ⟨l₁, h₁, h₂⟩ := forward_cons_eq_some_iff.1 hl
    obtain ⟨m₁, hm₁, hr₁⟩ := Swap.apply_rel h h₁
    obtain ⟨m', hm', hr'⟩ := ih hr₁ h₂
    exact ⟨m', forward_cons_eq_some_iff.2 ⟨m₁, hm₁, hm'⟩, hr'⟩

theorem backward_rel {R : σ → τ → Prop} {ps : List Swap} {l l' : List σ} {m : List τ}
    (h : List.Forall₂ R l m) (hl : backward ps l = some l') :
    ∃ m', backward ps m = some m' ∧ List.Forall₂ R l' m' := forward_rel h hl

theorem length_forward {ps : List Swap} {l l' : List τ} (h : forward ps l = some l') :
    l'.length = l.length := by
  induction ps generalizing l with
  | nil =>
    cases h
    rfl
  | cons p ps ih =>
    obtain ⟨m, h₁, h₂⟩ := forward_cons_eq_some_iff.1 h
    rw [ih h₂, Swap.length_apply h₁]

theorem perm_forward {ps : List Swap} {l l' : List τ} (h : forward ps l = some l') :
    l'.Perm l := by
  induction ps generalizing l with
  | nil =>
    cases h
    exact .refl _
  | cons p ps ih =>
    obtain ⟨m, h₁, h₂⟩ := forward_cons_eq_some_iff.1 h
    exact (ih h₂).trans (Swap.perm_apply h₁)

theorem within_of_forward {ps : List Swap} {l l' : List τ} (h : forward ps l = some l') :
    ∀ p ∈ ps, p.Within l.length := by
  induction ps generalizing l with
  | nil => simp
  | cons p ps ih =>
    obtain ⟨m, h₁, h₂⟩ := forward_cons_eq_some_iff.1 h
    intro q hq
    rcases List.mem_cons.mp hq with rfl | hq
    · exact Swap.within_of_apply h₁
    · exact Swap.length_apply h₁ ▸ ih h₂ q hq

theorem exists_forward {ps : List Swap} {l : List τ} (h : ∀ p ∈ ps, p.Within l.length) :
    ∃ l', forward ps l = some l' := by
  induction ps generalizing l with
  | nil => exact ⟨l, rfl⟩
  | cons p ps ih =>
    obtain ⟨m, h₁⟩ := Swap.exists_apply (h p (.head _))
    obtain ⟨l', h₂⟩ := ih (l := m) fun q hq =>
      (Swap.length_apply h₁).symm ▸ h q (List.mem_cons_of_mem _ hq)
    exact ⟨l', forward_cons_eq_some_iff.2 ⟨m, h₁, h₂⟩⟩

/-- Whether swaps can be carried out depends on the length of the list only. -/
theorem exists_forward_of_length {ps : List Swap} {l l' : List σ} {m : List τ}
    (h : forward ps l = some l') (hlen : m.length = l.length) : ∃ m', forward ps m = some m' :=
  exists_forward fun p hp => hlen ▸ within_of_forward h p hp

theorem firstOutside?_eq_none_iff {ps : List Swap} {rank : Int} :
    firstOutside? ps rank = none ↔ ∀ p ∈ ps, p.Within rank := by
  simp [firstOutside?]

theorem backward_eq_some_of_forward {ps : List Swap} {l l' : List τ}
    (h : forward ps l = some l') : backward ps l' = some l := by
  induction ps generalizing l with
  | nil =>
    cases h
    rfl
  | cons p ps ih =>
    obtain ⟨m, h₁, h₂⟩ := forward_cons_eq_some_iff.1 h
    have h₃ := ih h₂
    unfold backward at h₃ ⊢
    rw [List.reverse_cons, forward_append, h₃, Option.bind_some, forward_cons,
      Swap.apply_apply h₁, Option.bind_some, forward_nil]

/-- Swapping back is the inverse of swapping. -/
theorem backward_eq_some_iff {ps : List Swap} {l l' : List τ} :
    backward ps l' = some l ↔ forward ps l = some l' := by
  refine ⟨fun h => ?_, backward_eq_some_of_forward⟩
  have h' := backward_eq_some_of_forward h
  rwa [backward, List.reverse_reverse] at h'

theorem exists_forward_backward {ps : List Swap} {l : List τ} (h : firstOutside? ps l.length = none) :
    ∃ l', forward ps l = some l' ∧ backward ps l' = some l := by
  obtain ⟨l', hl'⟩ := exists_forward (firstOutside?_eq_none_iff.1 h)
  exact ⟨l', hl', backward_eq_some_of_forward hl'⟩

theorem exists_backward_forward {ps : List Swap} {l : List τ} (h : firstOutside? ps l.length = none) :
    ∃ l', backward ps l = some l' ∧ forward ps l' = some l := by
  have hin : ∀ p ∈ ps.reverse, p.Within l.length := fun p hp =>
    firstOutside?_eq_none_iff.1 h p (List.mem_reverse.mp hp)
  obtain ⟨l', hl'⟩ := exists_forward hin
  exact ⟨l', hl', backward_eq_some_iff.1 hl'⟩

theorem backward_append {ps qs : List Swap} (l : List τ) :
    backward (ps ++ qs) l = (backward qs l).bind (backward ps) := by
  unfold backward
  rw [List.reverse_append, forward_append]

@[simp] theorem backward_nil (l : List τ) : backward [] l = some l := rfl

/-- Shifted swaps leave a prefix alone. The positions must be machine words. -/
theorem forward_shiftSwaps {ps : List Swap} {l l' : List τ} (lead : List τ)
    (h : forward ps l = some l') (hlen : lead.length + l.length < 0x8000000000000000) :
    forward (shiftSwaps lead.length ps) (lead ++ l) = some (lead ++ l') := by
  unfold shiftSwaps
  split
  · rename_i hlead
    rw [List.length_eq_zero_iff.mp hlead, List.nil_append, h, List.nil_append]
  induction ps generalizing l with
  | nil =>
    cases h
    rfl
  | cons p ps ih =>
    obtain ⟨m, hm, hps⟩ := forward_cons_eq_some_iff.1 h
    obtain ⟨ha, ha', hb, hb'⟩ := Swap.within_of_apply hm
    rw [List.map_cons, word64_of_fits (by omega) (by omega), word64_of_fits (by omega) (by omega)]
    exact forward_cons_eq_some_iff.2 ⟨_, Swap.apply_append lead hm,
      ih hps (by rw [Swap.length_apply hm]; exact hlen)⟩

/-! ## Swaps that carry out a permutation -/

theorem forall₂_at? (l : List τ) :
    List.Forall₂ (fun (i : Int) x => at? l i = some x) ((List.range l.length).map Int.ofNat) l := by
  rw [List.forall₂_map_left_iff, List.forall₂_iff_get]
  refine ⟨by simp, fun i h₁ h₂ => ?_⟩
  simp [List.getElem?_eq_getElem h₂]

theorem forall₂_at?_unique {l : List τ} {is : List Int} {m m' : List τ}
    (h : List.Forall₂ (fun (i : Int) x => at? l i = some x) is m)
    (h' : List.Forall₂ (fun (i : Int) x => at? l i = some x) is m') : m = m' := by
  induction h generalizing m' with
  | nil =>
    cases h'
    rfl
  | cons hx _ ih =>
    cases h' with
    | cons hx' h' =>
      have hxx := hx.symm.trans hx'
      cases hxx
      rw [ih h']

/-- The selection puts the wanted elements behind those in place. The invariant is that the ones in
place and the wanted ones are together a rearrangement of what is there. -/
theorem selectFrom_spec (i : Nat) (wants cur : List Int) (hnd : cur.Nodup)
    (hlen : i + wants.length = cur.length) (hperm : (cur.take i ++ wants).Perm cur) :
    ∃ swaps, selectFrom i wants cur = some swaps ∧
      forward swaps cur = some (cur.take i ++ wants) := by
  induction wants generalizing i cur with
  | nil =>
    have hi : cur.length ≤ i := by simp at hlen; omega
    exact ⟨[], rfl, by simp [List.take_of_length_le hi]⟩
  | cons want rest ih =>
    have hmem : want ∈ cur := hperm.subset (by simp)
    obtain ⟨j, hj⟩ : ∃ j, cur.idxOf? want = some j := by
      cases hidx : cur.idxOf? want with
      | none => exact absurd hmem (List.idxOf?_eq_none_iff.mp hidx)
      | some j => exact ⟨j, rfl⟩
    obtain ⟨hjlt, hjw⟩ : ∃ h : j < cur.length, cur[j] = want := by
      rw [List.idxOf?] at hj
      obtain ⟨h, he, _⟩ := List.findIdx?_eq_some_iff_getElem.mp hj
      exact ⟨h, by simpa using he⟩
    have hlt : i < cur.length := by simp at hlen; omega
    -- what is in place is not wanted again
    have hij : i ≤ j := by
      by_contra hlt'
      have hin : want ∈ cur.take i := by
        rw [← hjw]
        exact List.mem_take_iff_getElem.mpr ⟨j, by omega, rfl⟩
      have hnd' := hperm.nodup_iff.mpr hnd
      exact (List.nodup_append.mp hnd').2.2 want hin want (by simp) rfl
    unfold selectFrom
    by_cases hji : j = i
    · subst hji
      have htake : cur.take (j + 1) = cur.take j ++ [want] := by
        rw [List.take_succ_eq_append_getElem hjlt, hjw]
      obtain ⟨swaps, hsel, hfwd⟩ := ih (j + 1) cur hnd (by simp at hlen; omega)
        (by rw [htake]; simpa using hperm)
      refine ⟨swaps, by simp [hj, hsel], ?_⟩
      rw [hfwd, htake]
      simp
    · obtain ⟨cur', hcur'⟩ := Swap.exists_apply (p := ⟨i, j⟩) (l := cur)
        ⟨by simp, by simpa using hlt, by simp, by simpa using hjlt⟩
      have htake : cur'.take (i + 1) = cur.take i ++ [want] := by
        obtain ⟨x, y, hx, hy, rfl⟩ := Swap.apply_eq_some_iff.1 hcur'
        simp only [at?_natCast] at hx hy
        rw [List.getElem?_eq_getElem hjlt, hjw] at hy
        cases hy
        simp only [Int.toNat_natCast]
        rw [List.take_set_of_le (by omega), List.take_set, List.take_succ_eq_append_getElem hlt,
          List.set_append_right _ _ (by rw [List.length_take]; omega)]
        have hmin : min i cur.length = i := by omega
        simp [hmin]
      have hp' := Swap.perm_apply hcur'
      obtain ⟨swaps, hsel, hfwd⟩ := ih (i + 1) cur' (hp'.nodup_iff.mpr hnd)
        (by rw [Swap.length_apply hcur']; simp at hlen; omega)
        (by rw [htake]; simpa using hperm.trans hp'.symm)
      refine ⟨⟨i, j⟩ :: swaps, ?_, ?_⟩
      · have hne : cur.idxOf? want ≠ some i := by rw [hj]; simpa using hji
        rw [if_neg hne, hj]
        simp [hcur', hsel]
      · rw [forward_cons, hcur', Option.bind_some, hfwd, htake]
        simp

/-- The swaps selected for a permutation put the element at position `perm[i]` at position `i`. -/
theorem permutationSwaps_spec {perm : List Int} {n : Nat}
    (h : perm.Perm ((List.range n).map Int.ofNat)) :
    ∃ swaps, permutationSwaps perm = some swaps ∧
      forward swaps ((List.range n).map Int.ofNat) = some perm := by
  have hlen : perm.length = n := by simpa using h.length_eq
  have hnd : ((List.range n).map Int.ofNat).Nodup :=
    List.Nodup.map (fun a b hab => Int.ofNat.inj hab) List.nodup_range
  obtain ⟨swaps, hsel, hfwd⟩ := selectFrom_spec 0 perm _ hnd
    (by simp [hlen]) (by simpa using h)
  exact ⟨swaps, by rw [permutationSwaps, hlen, hsel], by simpa using hfwd⟩


/-- The swaps selected for a permutation take a list `l` to the list of the elements `l[perm[i]]`. -/
theorem permutationSwaps_gathers {perm : List Int} {n : Nat}
    (h : perm.Perm ((List.range n).map Int.ofNat)) :
    ∃ swaps, permutationSwaps perm = some swaps ∧ firstOutside? swaps n = none ∧
      ∀ l : List τ, l.length = n →
        ∃ l', forward swaps l = some l' ∧ perm.mapM (at? l) = some l' := by
  obtain ⟨swaps, hswaps, hfwd⟩ := permutationSwaps_spec h
  refine ⟨swaps, hswaps, ?_, fun l hl => ?_⟩
  · apply firstOutside?_eq_none_iff.2
    simpa using within_of_forward hfwd
  · -- the positions are related to the elements there, and swapping keeps them related
    obtain ⟨l', hl', hgathers⟩ := forward_rel (forall₂_at? l) (hl ▸ hfwd)
    exact ⟨l', hl', mapM_eq_some_iff.2 hgathers⟩

end LoopNest
