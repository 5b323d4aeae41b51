/-!
# Fresh names

A supply of names that were never handed out before. Each root has a counter of its own; a
numbered name that is already taken is passed over.
-/

namespace LoopNest

/-- The names taken so far and, for each root, the next number to try. -/
structure NameSupply where
  taken : List String := []
  next : List (String × Nat) := []
deriving Repr, DecidableEq, Inhabited

namespace NameSupply

def register (s : NameSupply) (names : List String) : NameSupply :=
  { s with taken := names.reverse ++ s.taken }

/-- Whether a name was registered or handed out. -/
def isTaken (s : NameSupply) (name : String) : Bool := s.taken.contains name

/-- The next number to try for a root. -/
def nextOf (s : NameSupply) (root : String) : Nat := (s.next.lookup root).getD 0

def numbered (root : String) (i : Nat) : String := root ++ toString i

/-- The first number from the counter of a root on whose name is free. One more candidate than
there are taken names is enough. -/
def firstFree (s : NameSupply) (root : String) : Nat :=
  let start := s.nextOf root
  match (List.range (s.taken.length + 1)).find? fun i => !s.isTaken (numbered root (start + i)) with
  | some i => start + i
  | none => start + s.taken.length + 1

def fresh (s : NameSupply) (root : String) : String × NameSupply :=
  let i := s.firstFree root
  let name := numbered root i
  (name, { taken := name :: s.taken, next := (root, i + 1) :: s.next.filter (·.1 ≠ root) })

/-- The name itself when it is free, otherwise a numbered one. -/
def name (s : NameSupply) (root : String) : String × NameSupply :=
  if s.isTaken root then s.fresh root else (root, { s with taken := root :: s.taken })

end NameSupply

end LoopNest
