/-!
# Machine words

Extents, positions and element counts are held in signed 64-bit words. They are modelled by
integers, and an operation whose result may leave the range is followed by `word64`.
-/

namespace LoopNest

/-- The signed 64-bit word that an integer is stored as. -/
def word64 (n : Int) : Int := n.bmod 0x10000000000000000

/-- A value that fits in a signed 64-bit word is stored as itself. -/
theorem word64_of_fits {n : Int} (lo : -0x8000000000000000 ≤ n)
    (hi : n < 0x8000000000000000) : word64 n = n := by
  unfold word64
  rw [Int.bmod_eq_of_le] <;> omega

/-- The element of a list at a position given by a word: there is none at a negative position. -/
def at? (l : List τ) (i : Int) : Option τ := if i < 0 then none else l[i.toNat]?

@[simp] theorem at?_natCast (l : List τ) (i : Nat) : at? l (i : Int) = l[i]? := by
  have h : ¬ (i : Int) < 0 := by omega
  simp only [at?, if_neg h, Int.toNat_natCast]

/-- Replaces the element at a position; there is no result when the position is out of range. -/
def setAt? (l : List τ) (i : Int) (x : τ) : Option (List τ) :=
  if 0 ≤ i ∧ i < l.length then some (l.set i.toNat x) else none

end LoopNest
