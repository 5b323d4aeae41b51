import LoopNest.Index.Word

/-!
# Swaps of positions

A permutation of a list is given as a list of swaps. `forward` applies the swaps first to last,
which is how the axes of a tensor are permuted; `backward` applies them last to first, which
takes an index of the permuted tensor to the index of the tensor it was made from. Both fail
when a swap names a position outside the list.
-/

namespace LoopNest

/-- The exchange of two positions. -/
structure Swap where
  a : Int
  b : Int
deriving DecidableEq, Repr, Inhabited

namespace Swap

/-- Both positions lie below the rank. -/
def Within (rank : Int) (p : Swap) : Prop := 0 ≤ p.a ∧ p.a < rank ∧ 0 ≤ p.b ∧ p.b < rank

instance (rank : Int) (p : Swap) : Decidable (p.Within rank) :=
  inferInstanceAs (Decidable (_ ∧ _ ∧ _ ∧ _))

/-- Exchanges the elements at the two positions. -/
def apply (p : Swap) (l : List τ) : Option (List τ) := do
  let x ← at? l p.a
  let y ← at? l p.b
  some ((l.set p.a.toNat y).set p.b.toNat x)

def render (p : Swap) : String := s!"({p.a},{p.b})"

end Swap

/-- Applies the swaps first to last. -/
def forward (pairs : List Swap) (l : List τ) : Option (List τ) :=
  match pairs with
  | [] => some l
  | p :: rest => (p.apply l).bind (forward rest)

/-- Applies the swaps last to first. -/
def backward (pairs : List Swap) (l : List τ) : Option (List τ) := forward pairs.reverse l

@[simp] theorem forward_nil (l : List τ) : forward [] l = some l := rfl

theorem forward_cons (p : Swap) (rest : List Swap) (l : List τ) :
    forward (p :: rest) l = (p.apply l).bind (forward rest) := rfl

theorem forward_append (ps qs : List Swap) (l : List τ) :
    forward (ps ++ qs) l = (forward ps l).bind (forward qs) := by
  induction ps generalizing l with
  | nil => rfl
  | cons p ps ih =>
    rw [List.cons_append, forward_cons, forward_cons]
    cases p.apply l with
    | none => rfl
    | some l' => exact ih l'

/-- The first swap of a list that names a position outside the rank. -/
def firstOutside? (pairs : List Swap) (rank : Int) : Option Swap :=
  pairs.find? fun p => !decide (p.Within rank)

/-- The message for a swap that names a position outside the rank. -/
def outsideMessage (p : Swap) (rank : Int) : String :=
  s!"swap {p.render} out of range for rank {rank}"

/-- The swaps one after the other, in brackets. -/
def renderSwaps (pairs : List Swap) : String := "[" ++ String.join (pairs.map Swap.render) ++ "]"

/-- Adds an offset to both positions of every swap; without an offset nothing changes. -/
def shiftSwaps (offset : Nat) (pairs : List Swap) : List Swap :=
  if offset = 0 then pairs
  else pairs.map fun p => ⟨word64 (p.a + offset), word64 (p.b + offset)⟩

/-- Selection of the remaining positions `wants`, the positions below `i` being in place.
`cur` holds, at each position, the position at which its element started. -/
def selectFrom (i : Nat) (wants cur : List Int) : Option (List Swap) :=
  match wants with
  | [] => some []
  | want :: rest =>
    if cur.idxOf? want = some i then selectFrom (i + 1) rest cur
    else do
      let j ← cur.idxOf? want
      let p : Swap := ⟨i, j⟩
      let cur ← p.apply cur
      let swaps ← selectFrom (i + 1) rest cur
      some (p :: swaps)

/-- Swaps that move the element at position `perm[i]` to position `i`: applied forward to a list
`l` they give `l[perm[0]], l[perm[1]], …`. There are none when an entry names no element left to
place. -/
def permutationSwaps (perm : List Int) : Option (List Swap) :=
  selectFrom 0 perm ((List.range perm.length).map Int.ofNat)

end LoopNest
