import LoopNest.Kernel.Execution
import Mathlib.Data.List.Count

/-!
# Binding arguments

An execution counts the slots that have a buffer, so that it calls its kernel with a buffer in every
slot. An operation on an execution that fails leaves it as it was, its pinned buffers included.
-/

namespace LoopNest

/-- Arguments have positions among the formals of the kernel. -/
theorem Kernel.position_lt {k : Kernel} {name : String} {pos : Nat} (h : k.position name = .ok pos) :
    pos < k.formals.length := by
  rw [position] at h
  split at h
  · rename_i i hi
    cases h
    have := (List.findIdx?_eq_some_iff_findIdx_eq.mp hi).1
    rw [List.length_reverse] at this
    omega
  · cases h

namespace Execution

variable {k : Kernel} {e e' : Execution} {name : String} {b : Buffer} {n : Nat}

/-- The number of slots that have a buffer. -/
def bound (slots : List (Option Nat)) : Nat := slots.countP Option.isSome

/-- An execution has a slot for each formal of its kernel, and the number of its slots that have a
buffer. -/
structure Sound (k : Kernel) (e : Execution) : Prop where
  slots : e.slots.length = k.formals.length
  filled : e.filled = bound e.slots

theorem bound_set {slots : List (Option Nat)} {pos : Nat} (hpos : pos < slots.length) :
    bound (slots.set pos (some n)) =
      if slots[pos]? = some none then bound slots + 1 else bound slots := by
  have hget : slots[pos]? = some slots[pos] := List.getElem?_eq_getElem hpos
  rw [bound, List.countP_set hpos, hget]
  cases hslot : slots[pos] with
  | none => simp [bound]
  | some x =>
    have : 0 < bound slots := List.countP_pos_iff.mpr ⟨some x, hslot ▸ List.getElem_mem hpos, rfl⟩
    simp only [bound] at this ⊢
    simp only [Option.isSome_some, if_true, Option.some.injEq, reduceCtorEq, if_false]
    omega

namespace Sound

theorem ofKernel (k : Kernel) : Sound k (.ofKernel k) where
  slots := List.length_replicate
  filled := (List.countP_eq_zero.mpr fun _ hs => by simp [List.eq_of_mem_replicate hs]).symm

theorem filled_le (h : Sound k e) : e.filled ≤ k.formals.length := by
  rw [h.filled, ← h.slots]
  exact List.countP_le_length

theorem clear (h : Sound k e) : Sound k e.clear where
  slots := (List.length_map _).trans h.slots
  filled := (List.countP_eq_zero.mpr fun _ hs => by
    obtain ⟨_, _, rfl⟩ := List.mem_map.mp hs
    exact Bool.false_ne_true).symm

theorem congr {k' : Kernel} (h : Sound k e) (hformals : k'.formals = k.formals) : Sound k' e where
  slots := by rw [hformals, h.slots]
  filled := h.filled

theorem set (h : Sound k e) {pos : Nat} (hpos : pos < k.formals.length) (pins : Nat) :
    Sound k { slots := e.slots.set pos (some n), pins := pins
              filled := if e.slots[pos]? = some none then e.filled + 1 else e.filled } where
  slots := List.length_set.trans h.slots
  filled := by
    rw [h.filled]
    exact (bound_set (h.slots ▸ hpos)).symm

end Sound

/-! ## Operations -/

theorem bind_run {x : Binding β} {f : β → Binding γ} {a : β} (h : x e = .ok a e') :
    (x >>= f) e = f a e' := by
  show EStateM.bind x f e = _
  rw [EStateM.bind, h]

theorem place_run {pos : Nat} (hpos : k.position name = .ok pos) : place k name e = .ok pos e := by
  rw [place, hpos]
  rfl

theorem place_error {d : Diagnostic} {f : Nat → Binding β} (hpos : k.position name = .error d) :
    (place k name >>= f) e = .error d e := by
  show EStateM.bind (place k name) f e = _
  rw [EStateM.bind, place, hpos]
  rfl

theorem fill_run {pos : Nat} (hpos : k.position name = .ok pos) :
    fill k name (some n) e = .ok () { e with
      slots := e.slots.set pos (some n)
      filled := if e.slots[pos]? = some none then e.filled + 1 else e.filled } := by
  rw [fill, bind_run (place_run hpos)]
  show EStateM.Result.ok () _ = _
  by_cases hslot : e.slots[pos]? = some none
  · simp only [if_pos hslot]
  · simp only [if_neg hslot]

theorem fill_none {pos : Nat} (hpos : k.position name = .ok pos) :
    ∃ d, fill k name none e = .error d e := by
  rw [fill, bind_run (place_run hpos)]
  exact ⟨_, rfl⟩

/-- A buffer is bound with all that belongs to it, or the execution stays as it is. -/
theorem attach_cases (k : Kernel) (e : Execution) (name : String) (b : Buffer) (n : Nat) :
    (∃ d, attach k name b n e = .error d e) ∨
    ∃ pos, k.position name = .ok pos ∧ attach k name b n e = .ok () {
      slots := e.slots.set pos (some n)
      filled := if e.slots[pos]? = some none then e.filled + 1 else e.filled
      pins := e.pins + 1 } := by
  rw [attach]
  cases hpos : k.position name with
  | error d => exact .inl ⟨d, place_error hpos⟩
  | ok pos =>
    simp only [bind_run (place_run hpos)]
    by_cases htype : b.dtype = k.dtype
    · rw [if_neg (not_not_intro htype)]
      by_cases hsize : (b.data.length : Int) = ((k.formals[pos]?).map (·.dims.size)).getD 0
      · rw [if_neg (not_not_intro hsize)]
        cases hempty : b.data.isEmpty with
        | true =>
          have hpin : pin b n e = .ok none e := by rw [pin, hempty]; rfl
          rw [bind_run hpin]
          exact .inl (fill_none hpos)
        | false =>
          have hpin : pin b n e = .ok (some n) { e with pins := e.pins + 1 } := by
            rw [pin, hempty]
            rfl
          rw [bind_run hpin]
          exact .inr ⟨pos, rfl, fill_run hpos⟩
      · rw [if_pos hsize]
        exact .inl ⟨_, rfl⟩
    · rw [if_pos htype]
      exact .inl ⟨_, rfl⟩

theorem attach_error {d : Diagnostic} (h : attach k name b n e = .error d e') : e' = e := by
  rcases attach_cases k e name b n with ⟨d', hd⟩ | ⟨pos, -, hok⟩
  · cases h.symm.trans hd
    rfl
  · cases h.symm.trans hok

theorem Sound.attach (hs : Sound k e) (h : attach k name b n e = .ok () e') : Sound k e' := by
  rcases attach_cases k e name b n with ⟨d, hd⟩ | ⟨pos, hpos, hok⟩
  · cases h.symm.trans hd
  · cases h.symm.trans hok
    exact hs.set (Kernel.position_lt hpos) _

theorem eq_map_some {slots : List (Option Nat)} (h : ∀ slot ∈ slots, slot.isSome = true) :
    slots = (slots.filterMap id).map some := by
  induction slots with
  | nil => rfl
  | cons slot slots ih =>
    rw [List.forall_mem_cons] at h
    obtain ⟨x, rfl⟩ := Option.isSome_iff_exists.mp h.1
    exact congrArg (some x :: ·) (ih h.2)

/-- A kernel is called only while it is loaded, and with a buffer in every slot. -/
theorem arguments_eq_ok {f : Entry} {ids : List Nat} (hs : Sound k e) (h : e.arguments k = .ok (f, ids)) :
    k.entry = some f ∧ e.slots = ids.map some := by
  rw [arguments] at h
  split at h
  · cases h
  · rename_i g hentry
    split at h
    · cases h
    · rename_i hfilled
      cases h
      refine ⟨hentry, ?_⟩
      have hall : ∀ slot ∈ e.slots, slot.isSome = true := by
        rw [← List.countP_eq_length]
        exact hs.filled.symm.trans (not_not.mp hfilled)
      exact eq_map_some hall

end Execution

end LoopNest
