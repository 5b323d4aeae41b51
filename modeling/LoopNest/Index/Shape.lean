import LoopNest.Index.Swap

/-!
# Shapes and index spaces

A shape lists the axis lengths of a tensor; the empty list is the shape of a scalar. The elements of a
tensor are addressed by index lists. `rowMajor` gives the position of an element in memory and
`forEach` visits the indices of a shape in memory order, the last axis varying fastest; `odometer` visits
them in the same order with one counter and no nesting.
-/

namespace LoopNest

/-- The axis lengths of a tensor. -/
abbrev Shape := List Int

namespace Shape

/-- The number of axes. -/
abbrev rank (s : Shape) : Nat := s.length

/-- The number of elements, as a 64-bit word. -/
def size (s : Shape) : Int := s.foldl (fun n d => word64 (n * d)) 1

/-- The number of elements, as a true product. -/
def count (s : Shape) : Int := s.foldr (· * ·) 1

/-- The axes whose positions, counted from `i`, are not listed. -/
def removeFrom (axes : List Int) (i : Nat) : Shape → Shape
  | [] => []
  | d :: rest =>
    if axes.contains (i : Int) then removeFrom axes (i + 1) rest
    else d :: removeFrom axes (i + 1) rest

/-- The shape without the axes at the given positions; positions outside the shape are ignored. -/
def remove (axes : List Int) (s : Shape) : Shape := removeFrom axes 0 s

/-- The shape with its axes swapped, first pair to last. -/
def permute (pairs : List Swap) (s : Shape) : Option Shape := forward pairs s

def render (s : Shape) : String := "[" ++ ",".intercalate (s.map toString) ++ "]"

/-- The shape followed by the name of its element type, an axis at a time. -/
def renderTyped (s : Shape) (element : String) : String :=
  String.join (s.map fun d => s!"[{d}]") ++ element

/-- The first axis, counted from `i`, whose length is not positive. -/
def nonPositiveFrom? (i : Nat) : Shape → Option (Nat × Int)
  | [] => none
  | d :: rest => if d ≤ 0 then some (i, d) else nonPositiveFrom? (i + 1) rest

/-- The first axis whose length is not positive, with that length. -/
def nonPositive? (s : Shape) : Option (Nat × Int) := nonPositiveFrom? 0 s

/-- The message for an axis whose length is not positive. -/
def nonPositiveMessage (s : Shape) (axis : Nat) (length : Int) : String :=
  s!"axis {axis} of shape {s.render} has length {length}"

end Shape

/-- Integers in brackets, separated by blanks. -/
def renderSpaced (l : List Int) : String := "[" ++ " ".intercalate (l.map toString) ++ "]"

def renderCommas (l : List Int) : String := ",".intercalate (l.map toString)

/-! ## Index spaces -/

/-- Horner's rule for the position of an index, starting from `off`. -/
def rowMajorFrom (off : Int) (dims idx : List Int) : Option Int :=
  match idx, dims with
  | [], _ => some off
  | _ :: _, [] => none
  | i :: idx, d :: dims => rowMajorFrom (word64 (off * d + i)) dims idx

/-- The row-major position of an index. Coordinates are not checked against the extents; an index
may be shorter than the shape, and has no position when it is longer. -/
def rowMajor (dims idx : List Int) : Option Int := rowMajorFrom 0 dims idx

/-- Every coordinate lies in its extent, and there is one per axis. -/
inductive InRange : List Int → List Int → Prop
  | nil : InRange [] []
  | cons : 0 ≤ i → i < d → InRange ds is → InRange (d :: ds) (i :: is)

/-- Runs `f` on `start, start + 1, …`, `n` values in all, until one has no result. -/
def loop (n : Nat) (start : Int) (f : Int → σ → Option σ) (s : σ) : Option σ :=
  match n with
  | 0 => some s
  | n + 1 => (f start s).bind (loop n (start + 1) f)

/-- One loop per axis, outermost first. An axis is visited at least once. -/
def forEachFrom (dims : List Int) (f : List Int → σ → Option σ) (s : σ) : Option σ :=
  match dims with
  | [] => f [] s
  | d :: dims => loop (max 1 d.toNat) 0 (fun i => forEachFrom dims fun idx => f (i :: idx)) s

/-- Runs `f` on every index of a shape in row-major order. A shape with an axis of length zero has
no index, and an axis of negative length counts as one of length one. -/
def forEach (dims : List Int) (f : List Int → σ → Option σ) (s : σ) : Option σ :=
  if dims.contains 0 then some s else forEachFrom dims f s

/-! ## Counting

An index as a counter with one digit per axis. The last digit is counted up; a digit that reaches its
extent starts again at zero and carries to the digit before it, and the count is over when the first
digit carries. -/

/-- The index after `idx`; there is none when every digit carries. -/
def advance : List Int → List Int → Option (List Int)
  | d :: dims, i :: idx =>
    match advance dims idx with
    | some next => some (i :: next)
    | none => if i + 1 < d then some ((i + 1) :: idx.map fun _ => 0) else none
  | _, _ => none

/-- A bound on the steps that are left to count. -/
def stepsLeft : List Int → List Int → Nat
  | d :: dims, i :: idx =>
    (d - i).toNat * (stepsLeft dims (idx.map fun _ => 0) + 1) + stepsLeft dims idx
  | _, _ => 0

theorem map_zero_of_advance {dims idx next : List Int} (h : advance dims idx = some next) :
    next.map (fun _ => (0 : Int)) = idx.map fun _ => 0 := by
  fun_induction advance dims idx generalizing next with
  | case1 d dims i idx tail htail ih =>
    cases h
    rw [List.map_cons, List.map_cons, ih htail]
  | case2 d dims i idx hnone hlt ih =>
    cases h
    rw [List.map_cons, List.map_cons, List.map_map]
    rfl
  | case3 => cases h
  | case4 => cases h

/-- A step leaves fewer steps: a digit that is counted up is worth more than all digits after it. -/
theorem stepsLeft_advance {dims idx next : List Int} (h : advance dims idx = some next) :
    stepsLeft dims next < stepsLeft dims idx := by
  fun_induction advance dims idx generalizing next with
  | case1 d dims i idx tail htail ih =>
    cases h
    rw [stepsLeft, stepsLeft, map_zero_of_advance htail]
    exact Nat.add_lt_add_left (ih htail) _
  | case2 d dims i idx hnone hlt ih =>
    cases h
    have hdigit : (d - i).toNat = (d - (i + 1)).toNat + 1 := by omega
    have hzeros : (idx.map fun _ => (0 : Int)).map (fun _ => (0 : Int)) = idx.map fun _ => 0 := by
      rw [List.map_map]
      rfl
    rw [stepsLeft, stepsLeft, hzeros, hdigit, Nat.add_mul]
    omega
  | case3 => cases h
  | case4 => cases h

/-- Runs `f` on `idx` and then on every index after it, until the count is over. -/
def countFrom (dims : List Int) (f : List Int → σ → Option σ) (idx : List Int) (s : σ) :
    Option σ := do
  let s ← f idx s
  match _h : advance dims idx with
  | some next => countFrom dims f next s
  | none => some s
termination_by stepsLeft dims idx
decreasing_by exact stepsLeft_advance ‹_›

/-- Runs `f` on the indices of a shape, counted up from zeros. -/
def odometer (dims : List Int) (f : List Int → σ → Option σ) (s : σ) : Option σ :=
  if dims.contains 0 then some s else countFrom dims f (dims.map fun _ => 0) s

/-! ## Contraction

An operand of a contraction is indexed by free indices, taken from the result, and by contracted
indices, which are summed over. -/

/-- The index list of `n` axes, the first of which is at position `pos`: an axis listed in `axes`
takes the contracted index at its place in that list, another axis takes the next free index. The
free indices that are left are returned too. -/
def interleaveFrom (axes : List Int) (contracted : List τ) :
    (n pos : Nat) → (free : List τ) → Option (List τ × List τ)
  | 0, _, free => some ([], free)
  | n + 1, pos, free =>
    match axes.idxOf? (pos : Int) with
    | some t => do
      let c ← contracted[t]?
      let (idx, rest) ← interleaveFrom axes contracted n (pos + 1) free
      some (c :: idx, rest)
    | none =>
      match free with
      | [] => none
      | f :: free => do
        let (idx, rest) ← interleaveFrom axes contracted n (pos + 1) free
        some (f :: idx, rest)

/-- The index list of an operand of a given rank, and the free indices left for the other one. -/
def interleave (rank : Nat) (axes : List Int) (free contracted : List τ) :
    Option (List τ × List τ) :=
  interleaveFrom axes contracted rank 0 free

end LoopNest
