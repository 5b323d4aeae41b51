import LoopNest.Proofs.Index.Visits

/-!
# Regrouping folds

A fold whose steps may fail does the same when its elements are sorted into groups, provided that
steps of different groups commute on the states that occur (`foldlM_regroup`).
-/

namespace LoopNest

variable {σ τ : Type _} {f : σ → τ → Option σ} {P : σ → Prop} {l : List τ}

/-- Two computations that may fail can change places on the given states. -/
def CommuteOn (P : σ → Prop) (f g : σ → Option σ) : Prop :=
  ∀ s, P s → (f s).bind g = (g s).bind f

/-- What commutes with two computations commutes with one after the other. -/
theorem CommuteOn.bind {f g g' : σ → Option σ} (hP : ∀ s, P s → ∀ s', g s = some s' → P s')
    (h : CommuteOn P f g) (h' : CommuteOn P f g') : CommuteOn P f fun s => (g s).bind g' := by
  intro s hs
  rw [← Option.bind_assoc, h s hs, Option.bind_assoc, Option.bind_assoc]
  exact Option.bind_congr fun s' hs' => h' s' (hP s hs s' hs')

/-- What commutes with every step commutes with the whole fold. -/
theorem CommuteOn.foldlM {g : σ → Option σ} (hP : ∀ x ∈ l, ∀ s, P s → ∀ s', f s x = some s' → P s')
    (h : ∀ x ∈ l, CommuteOn P g (f · x)) : CommuteOn P g (l.foldlM f) := by
  induction l with
  | nil => exact fun s _ => by simp
  | cons x l ih =>
    intro s hs
    have hrest : CommuteOn P g (l.foldlM f) := ih (fun y hy => hP y (List.mem_cons_of_mem _ hy))
      fun y hy => h y (List.mem_cons_of_mem _ hy)
    simp only [List.foldlM_cons, Option.bind_eq_bind]
    exact CommuteOn.bind (hP x (.head _)) (h x (.head _)) hrest s hs

variable (hP : ∀ x ∈ l, ∀ s, P s → ∀ s', f s x = some s' → P s')
include hP

/-- The elements that satisfy `p` can be taken first when they commute with the others. -/
theorem foldlM_partition (p : τ → Bool)
    (h : ∀ x ∈ l, ∀ y ∈ l, p x = true → p y = false → CommuteOn P (f · y) (f · x)) {s : σ} (hs : P s) :
    l.foldlM f s = (l.filter p ++ l.filter (!p ·)).foldlM f s := by
  induction l generalizing s with
  | nil => rfl
  | cons y l ih =>
    have hP' : ∀ x ∈ l, ∀ s, P s → ∀ s', f s x = some s' → P s' :=
      fun x hx => hP x (List.mem_cons_of_mem _ hx)
    have hrest : ∀ s', f s y = some s' →
        l.foldlM f s' = (l.filter p ++ l.filter (!p ·)).foldlM f s' := fun s' hs' =>
      ih hP' (fun x hx z hz => h x (List.mem_cons_of_mem _ hx) z (List.mem_cons_of_mem _ hz))
        (hP y (.head _) s hs s' hs')
    have hcons : (y :: l).foldlM f s =
        (f s y).bind fun s' => (l.filter p ++ l.filter (!p ·)).foldlM f s' := by
      rw [List.foldlM_cons, Option.bind_eq_bind]
      cases hy : f s y with
      | none => rfl
      | some s' => exact hrest s' hy
    cases hp : p y with
    | true =>
      rw [hcons, List.filter_cons_of_pos hp, List.filter_cons_of_neg (by simp [hp])]
      rfl
    | false =>
      -- the element moves behind those that satisfy `p`
      have hmove : CommuteOn P (f · y) ((l.filter p).foldlM f) :=
        .foldlM (fun x hx => hP' x (List.mem_of_mem_filter hx)) fun x hx =>
          h x (List.mem_cons_of_mem _ (List.mem_of_mem_filter hx)) y (.head _)
            (List.of_mem_filter hx) hp
      rw [hcons, List.filter_cons_of_neg (by simp [hp]), List.filter_cons_of_pos (by simp [hp])]
      simp only [List.foldlM_append, List.foldlM_cons, Option.bind_eq_bind]
      rw [← Option.bind_assoc, hmove s hs, Option.bind_assoc]

/-- The elements can be sorted by their keys when those with different keys commute. -/
theorem foldlM_regroup (key : τ → Int)
    (h : ∀ x ∈ l, ∀ y ∈ l, key x ≠ key y → CommuteOn P (f · x) (f · y)) {n : Nat}
    (hn : ∀ x ∈ l, 0 ≤ key x ∧ key x < n) {s : σ} (hs : P s) :
    l.foldlM f s = ((List.range n).flatMap fun (i : Nat) => l.filter (key · = i)).foldlM f s := by
  induction n generalizing l with
  | zero =>
    cases l with
    | nil => rfl
    | cons x l =>
      have := hn x (.head _)
      omega
  | succ n ih =>
    rw [foldlM_partition hP (fun x => key x < n) (fun x hx y hy hlt hge => h y hy x hx fun heq => by
      simp_all) hs, List.range_succ, List.flatMap_append, List.foldlM_append, List.foldlM_append,
      ih (fun x hx => hP x (List.mem_of_mem_filter hx)) (fun x hx y hy =>
        h x (List.mem_of_mem_filter hx) y (List.mem_of_mem_filter hy)) fun x hx => ?_]
    · have hlow : ∀ i ∈ List.range n, (l.filter (key · < n)).filter (key · = i) =
          l.filter (key · = i) := by
        intro i hi
        rw [List.filter_filter]
        refine List.filter_congr fun x _ => ?_
        have := List.mem_range.mp hi
        by_cases hx : key x = i <;> simp [hx]
        omega
      have hhigh : l.filter (fun x => !decide (key x < n)) = l.filter (key · = n) := by
        refine List.filter_congr fun x hx => ?_
        have := hn x hx
        by_cases hx : key x = n <;> simp [hx]
        omega
      rw [List.flatMap_congr hlow, hhigh, List.flatMap_singleton]
    · have hlt : key x < n := by simpa using List.of_mem_filter hx
      exact ⟨(hn x (List.mem_of_mem_filter hx)).1, hlt⟩

end LoopNest
