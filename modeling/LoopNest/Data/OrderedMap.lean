/-!
# Ordered maps

A map that remembers the order in which its keys were first stored. Storing a present key keeps
its place, storing a new key puts it last, and erasing a key closes the gap.
-/

namespace LoopNest

/-- Keys with their values, in the order in which the keys were first stored. -/
structure OrderedMap (κ : Type u) (ν : Type v) where
  entries : List (κ × ν) := []
deriving Repr, DecidableEq

namespace OrderedMap

variable {κ : Type u} {ν : Type v} [DecidableEq κ]

instance : Inhabited (OrderedMap κ ν) := ⟨{}⟩

/-- The entries after storing a value. -/
def insertIn (k : κ) (v : ν) : List (κ × ν) → List (κ × ν)
  | [] => [(k, v)]
  | e :: rest => if e.1 = k then (k, v) :: rest else e :: insertIn k v rest

/-- Stores a value; the place of a present key is unchanged. -/
def insert (m : OrderedMap κ ν) (k : κ) (v : ν) : OrderedMap κ ν := ⟨insertIn k v m.entries⟩

def get? (m : OrderedMap κ ν) (k : κ) : Option ν := (m.entries.find? (·.1 = k)).map (·.2)

def position? (m : OrderedMap κ ν) (k : κ) : Option Nat := m.entries.findIdx? (·.1 = k)

/-- The key and the value at a place. -/
def entry? (m : OrderedMap κ ν) (i : Nat) : Option (κ × ν) := m.entries[i]?

/-- Removes a key; the keys after it move up. -/
def erase (m : OrderedMap κ ν) (k : κ) : OrderedMap κ ν := ⟨m.entries.eraseP (·.1 = k)⟩

/-- Changes the value of a present key. -/
def modify (m : OrderedMap κ ν) (k : κ) (f : ν → ν) : OrderedMap κ ν :=
  ⟨m.entries.map fun e => if e.1 = k then (e.1, f e.2) else e⟩

/-- The entries after changing the value of a key, which has to be there. -/
def changeIn? (k : κ) (f : ν → Option ν) : List (κ × ν) → Option (List (κ × ν))
  | [] => none
  | (key, v) :: rest =>
    if key = k then (f v).map fun v => (key, v) :: rest
    else (changeIn? k f rest).map ((key, v) :: ·)

/-- Changes the value of a key; nothing if the key is absent or the change is not possible. -/
def change? (m : OrderedMap κ ν) (k : κ) (f : ν → Option ν) : Option (OrderedMap κ ν) :=
  (changeIn? k f m.entries).map fun entries => ⟨entries⟩

def keys (m : OrderedMap κ ν) : List κ := m.entries.map (·.1)

def values (m : OrderedMap κ ν) : List ν := m.entries.map (·.2)

def size (m : OrderedMap κ ν) : Nat := m.entries.length

def contains (m : OrderedMap κ ν) (k : κ) : Bool := (m.get? k).isSome

end OrderedMap

end LoopNest
