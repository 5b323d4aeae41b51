import LoopNest.Compiler.Library.Basic

/-!
# Sorting and searching

Functions that order the elements of an array, or find one of them, by a function that compares two
elements by their addresses.
-/

namespace LoopNest.Compiler.Library

/-- Merges two ordered lists; of elements that are equal those of the first list are in front. The
fuel bounds the number of elements. -/
def merge (isAfter : α → α → Run Bool) (fuel : Nat) (done : List α) : List α → List α → Run (List α)
  | [], bs => pure (done.reverse ++ bs)
  | as, [] => pure (done.reverse ++ as)
  | a :: as, b :: bs =>
    match fuel with
    | 0 => Run.fault
    | fuel + 1 => do
      if ← isAfter a b then merge isAfter fuel (b :: done) (a :: as) bs
      else merge isAfter fuel (a :: done) as (b :: bs)

/-- The elements of a list in order. The fuel bounds how often it is halved. -/
def sorted (isAfter : α → α → Run Bool) : Nat → List α → Run (List α)
  | 0, as => pure as
  | fuel + 1, as => do
    let half := as.length / 2
    if half = 0 then return as
    let front ← sorted isAfter fuel (as.take half)
    let back ← sorted isAfter fuel (as.drop half)
    merge isAfter as.length [] front back

def elements (address size : Int) (n : Nat) : Run (List ByteArray) :=
  (List.range n).mapM fun i => Run.loadBytes (address + Int.ofNat i * size) size.toNat

/-- What a function that compares gives for two addresses. -/
def compared (call : Callback) (compare a b : Int) : Run Int :=
  Run.integer (call compare [(Cell.pointer, .integer a), (Cell.pointer, .integer b)])

def sortArray (call : Callback) (address n size compare : Int) : Run Value := do
  let all ← elements address size n.toNat
  let room ← Run.allocate (2 * size.toNat)
  let isAfter (a b : ByteArray) : Run Bool := do
    Run.storeBytes room a
    Run.storeBytes (room + size) b
    return 0 < (← compared call compare room (room + size))
  let ordered ← sorted isAfter (all.length + 1) all
  ordered.zipIdx.forM fun (b, i) => Run.storeBytes (address + Int.ofNat i * size) b
  Run.release room
  return .nothing

/-- Finds an element of an ordered array between two numbers. The fuel bounds the number of
comparisons. -/
def search (call : Callback) (key address size compare : Int) (fuel : Nat) (low high : Int) : Run Value :=
  match fuel with
  | 0 => given 0
  | fuel + 1 => do
    if high ≤ low then given 0
    else
      let i := (low + high) / 2
      let place := address + i * size
      let c ← compared call compare key place
      if c < 0 then search call key address size compare fuel low i
      else if 0 < c then search call key address size compare fuel (i + 1) high
      else given place

def sorting : List (String × Handler) :=
  [("qsort", fun call args => match args.map integerOf with
      | [a, n, size, compare] => sortArray call a n size compare
      | _ => Run.fault),
    ("bsearch", fun call args => match args.map integerOf with
      | [key, a, n, size, compare] => search call key a size compare 128 0 n
      | _ => Run.fault)]

end LoopNest.Compiler.Library
