/-!
# Handle tables

A table hands out a number for each value given to it and gives the value back for the number.
Numbers start at one and come back to zero after 64 bits; the number zero stands for the absence of a
value. A handle is given in two steps, so that the clients of a table need not wait for one another: a
number is drawn from a counter, and the value is stored under it.
-/

namespace LoopNest

/-- A value that can be put in a handle table: it has a type name, and may be a zero value that
needs no handle. -/
class HandleValue (ν : Type u) where
  typeName : ν → String
  isZero : ν → Bool

/-- The live handles, in the order in which they were handed out, and the last number used. -/
structure HandleTable (ν : Type u) where
  live : List (Nat × ν) := []
  last : Nat := 0

/-- Why a handle could not be used. -/
inductive HandleError where
  | null
  | unknown (handle : Nat)
  | wrongType (handle : Nat) (found wanted : String)
  | releaseUnknown (handle : Nat)
deriving DecidableEq, Repr

def HandleError.message : HandleError → String
  | .null => "invalid null handle"
  | .unknown h => s!"handle {h} has been released or is unknown"
  | .wrongType h found wanted => s!"handle {h} refers to a {found}, not a {wanted}"
  | .releaseUnknown h => s!"releasing invalid handle {h}"

namespace HandleTable

variable {ν : Type u} [HandleValue ν]

def find? (t : HandleTable ν) (h : Nat) : Option ν := t.live.lookup h

/-- The value of a handle that must be live and of the wanted type. `view` selects the type. -/
def unwrap (t : HandleTable ν) (wanted : String) (view : ν → Option τ) (h : Nat) :
    Except HandleError τ :=
  if h = 0 then .error .null
  else
    match t.find? h with
    | none => .error (.unknown h)
    | some v =>
      match view v with
      | none => .error (.wrongType h (HandleValue.typeName v) wanted)
      | some x => .ok x

def remove (t : HandleTable ν) (h : Nat) : HandleTable ν := { t with live := t.live.filter (·.1 ≠ h) }

/-- Forgets a live handle. Releasing the handle zero does nothing. -/
def release (t : HandleTable ν) (h : Nat) : Except HandleError (HandleTable ν) :=
  if h = 0 then .ok t
  else if (t.find? h).isSome then .ok (t.remove h)
  else .error (.releaseUnknown h)

def update (t : HandleTable ν) (h : Nat) (v : ν) : HandleTable ν :=
  { t with live := t.live.map fun e => if e.1 = h then (h, v) else e }

/-- The number after which numbers start again at zero. -/
def limit : Nat := 0x10000000000000000

/-- Draws the number after the last one. -/
def draw (t : HandleTable ν) : Nat × HandleTable ν :=
  let h := (t.last + 1) % limit
  (h, { t with last := h })

/-- Puts a value under a number, in place of one that is there. -/
def store (t : HandleTable ν) (h : Nat) (v : ν) : HandleTable ν :=
  if (t.find? h).isSome then t.update h v else { t with live := t.live ++ [(h, v)] }

/-- Hands out a handle for a value. A zero value gets the handle zero; for any other value, zero means
that no number is left. -/
def wrap (t : HandleTable ν) (v : ν) : Nat × HandleTable ν :=
  if HandleValue.isZero v then (0, t)
  else
    let (h, t) := t.draw
    if h = 0 then (0, t) else (h, t.store h v)

def count (t : HandleTable ν) : Nat := t.live.length

/-- One line per live handle, with the type of its value. -/
def dump (t : HandleTable ν) : List String :=
  t.live.map fun e => s!"{HandleValue.typeName e.2} handle: {e.1}"

end HandleTable

end LoopNest
