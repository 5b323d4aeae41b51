import LoopNest.Data.HandleTable
import Mathlib.Data.List.Basic

/-!
# Handle tables

Which values a table has after each of its operations.
-/

namespace LoopNest.HandleTable

variable {ν : Type*} {t t' : HandleTable ν} {h k : Nat} {v : ν}

/-- The handles that are live. -/
def keys (t : HandleTable ν) : List Nat := t.live.map Prod.fst

theorem count_eq (t : HandleTable ν) : t.count = t.keys.length := (List.length_map ..).symm

theorem isSome_find?_iff : (t.find? h).isSome = true ↔ h ∈ t.keys := by
  rw [find?, List.lookup_isSome_iff, keys, List.mem_map]
  exact exists_congr fun e => and_congr_right fun _ => beq_iff_eq.trans eq_comm

theorem mem_keys_of_find? (hf : t.find? h = some v) : h ∈ t.keys :=
  isSome_find?_iff.1 (by rw [hf]; rfl)

theorem find?_eq_none_iff : t.find? h = none ↔ h ∉ t.keys := by
  rw [← isSome_find?_iff, Option.not_isSome_iff_eq_none]

theorem exists_find? (hk : h ∈ t.keys) : ∃ v, t.find? h = some v :=
  Option.isSome_iff_exists.mp (isSome_find?_iff.2 hk)

/-! ## Storing and removing -/

@[simp] theorem find?_draw : t.draw.2.find? h = t.find? h := rfl

@[simp] theorem keys_draw : t.draw.2.keys = t.keys := rfl

theorem store_of_fresh (hfresh : h ∉ t.keys) : t.store h v = { t with live := t.live ++ [(h, v)] } := by
  rw [store, find?_eq_none_iff.2 hfresh]
  rfl

theorem keys_store (hfresh : h ∉ t.keys) : (t.store h v).keys = t.keys ++ [h] := by
  rw [store_of_fresh hfresh, keys, List.map_append]
  rfl

theorem find?_store (hfresh : h ∉ t.keys) :
    (t.store h v).find? k = if k = h then some v else t.find? k := by
  rw [store_of_fresh hfresh, find?, List.lookup_append, List.lookup_cons]
  change (t.find? k).or _ = _
  by_cases hk : k = h
  · rw [hk, find?_eq_none_iff.2 hfresh, beq_self_eq_true, if_pos rfl]
    rfl
  · rw [if_neg hk, beq_false_of_ne hk]
    exact Option.or_none

theorem keys_remove : (t.remove h).keys = t.keys.filter (· ≠ h) := by
  rw [remove, keys, keys, List.filter_map]
  rfl

theorem keys_remove_subset : (t.remove h).keys ⊆ t.keys := by
  rw [keys_remove]
  exact List.filter_subset_self _

theorem find?_remove : (t.remove h).find? k = if k = h then none else t.find? k := by
  show (t.live.filter (·.1 ≠ h)).lookup k = if k = h then none else t.live.lookup k
  induction t.live with
  | nil => exact (ite_self none).symm
  | cons e l ih =>
    by_cases he : e.1 = h
    · rw [List.filter_cons_of_neg (by simp [he]), ih, List.lookup_cons]
      by_cases hk : k = h
      · rw [if_pos hk, if_pos hk]
      · rw [beq_false_of_ne (by rw [he]; exact hk)]
    · rw [List.filter_cons_of_pos (by simp [he]), List.lookup_cons, List.lookup_cons, ih]
      by_cases hk : k = e.1
      · simp only [hk, beq_self_eq_true, if_neg he]
      · rw [beq_false_of_ne hk]

theorem find?_remove_eq_some : (t.remove h).find? k = some v ↔ k ≠ h ∧ t.find? k = some v := by
  rw [find?_remove]
  by_cases hk : k = h
  · rw [if_pos hk]
    exact iff_of_false (fun hv => by cases hv) fun hv => hv.1 hk
  · rw [if_neg hk, and_iff_right hk]

/-- One handle less is live after it was removed. -/
theorem length_keys_remove (hnd : t.keys.Nodup) (hk : h ∈ t.keys) :
    (t.remove h).keys.length + 1 = t.keys.length := by
  have herase : (t.remove h).keys = t.keys.erase h := by
    rw [keys_remove, hnd.erase_eq_filter]
    exact List.filter_congr fun x _ => by simp [bne, Bool.beq_eq_decide_eq]
  rw [herase, List.length_erase_of_mem hk]
  have := List.length_pos_of_mem hk
  omega

/-! ## Operations -/

/-- A release succeeds for the handle zero, which changes nothing, and for a live handle, which is no
longer live then. -/
theorem release_cases (t : HandleTable ν) (h : Nat) :
    (h = 0 ∧ t.release h = .ok t) ∨
    (h ≠ 0 ∧ h ∈ t.keys ∧ t.release h = .ok (t.remove h)) ∨
    (h ≠ 0 ∧ h ∉ t.keys ∧ t.release h = .error (.releaseUnknown h)) := by
  by_cases h0 : h = 0
  · exact .inl ⟨h0, by rw [release, if_pos h0]⟩
  · by_cases hk : h ∈ t.keys
    · exact .inr (.inl ⟨h0, hk, by rw [release, if_neg h0, if_pos (isSome_find?_iff.2 hk)]⟩)
    · refine .inr (.inr ⟨h0, hk, ?_⟩)
      rw [release, if_neg h0, if_neg fun hsome => hk (isSome_find?_iff.1 hsome)]

variable [HandleValue ν]

/-- What the value of a handle gives when it is wanted at a type. -/
def seen (h : Nat) (wanted : String) (view : ν → Option τ) (v : ν) : Except HandleError τ :=
  match view v with
  | some x => .ok x
  | none => .error (.wrongType h (HandleValue.typeName v) wanted)

theorem unwrap_of_find? (h0 : h ≠ 0) (hf : t.find? h = some v) (wanted : String) (view : ν → Option τ) :
    t.unwrap wanted view h = seen h wanted view v := by
  rw [unwrap, if_neg h0, hf, seen]
  cases hview : view v with
  | none => simp only [hview]
  | some x => simp only [hview]

theorem unwrap_of_find?_none (h0 : h ≠ 0) (hf : t.find? h = none) (wanted : String) (view : ν → Option τ) :
    t.unwrap wanted view h = .error (.unknown h) := by
  rw [unwrap, if_neg h0, hf]

/-- A handle that gives a value is live, and its value is of the wanted type. -/
theorem unwrap_eq_ok {wanted : String} {view : ν → Option τ} {x : τ}
    (h : t.unwrap wanted view k = .ok x) : k ≠ 0 ∧ ∃ v, t.find? k = some v ∧ view v = some x := by
  rw [unwrap] at h
  split at h
  · cases h
  · rename_i h0
    refine ⟨h0, ?_⟩
    split at h
    · cases h
    · rename_i v hf
      split at h
      · cases h
      · rename_i hview
        cases h
        exact ⟨v, hf, hview⟩

end LoopNest.HandleTable
