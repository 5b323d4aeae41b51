import Std.Data.HashMap
import LoopNest.Data.OrderedMap
import LoopNest.Index.Word

/-!
# Ordered maps as objects

An ordered map in three parts that are updated side by side: its keys in order, the position of every
key, and the value of every key. The parts are in memory, and a map is a reference to them: whatever
is done through a reference is seen by everyone who has it, and a clone has parts of its own.
-/

namespace LoopNest

variable {κ ν σ τ : Type} [BEq κ] [Hashable κ]

/-- Gives the elements of a list to `yield`, one after the other, for as long as it asks for more. -/
def visit (yield : τ → σ → σ × Bool) : List τ → σ → σ
  | [], s => s
  | x :: rest, s =>
    match yield x s with
    | (s, true) => visit yield rest s
    | (s, false) => s

structure MapParts (κ ν : Type) [BEq κ] [Hashable κ] where
  keys : List κ := []
  positions : Std.HashMap κ Nat := {}
  values : Std.HashMap κ ν := {}

namespace MapParts

/-- Stores a value. A key that has no value yet comes after all others. -/
def store (x : MapParts κ ν) (k : κ) (v : ν) : MapParts κ ν :=
  if k ∈ x.values then { x with values := x.values.insert k v }
  else
    { keys := x.keys ++ [k]
      positions := x.positions.insert k x.keys.length
      values := x.values.insert k v }

/-- Numbers keys from `i` on. -/
def renumber (i : Nat) : List κ → Std.HashMap κ Nat → Std.HashMap κ Nat
  | [], positions => positions
  | k :: rest, positions => renumber (i + 1) rest (positions.insert k i)

/-- Deletes a key if it has a position, and numbers the keys after it again. There is no result if
there is no key at its position. -/
def delete? (x : MapParts κ ν) (k : κ) : Option (MapParts κ ν) :=
  match x.positions[k]? with
  | none => some x
  | some i =>
    if x.keys.length ≤ i then none
    else
      let keys := x.keys.take i ++ x.keys.drop (i + 1)
      some {
        keys
        positions := renumber i (keys.drop i) (x.positions.erase k)
        values := x.values.erase k }

/-- The value of a key, if it has one. -/
def load? (x : MapParts κ ν) (k : κ) : Option ν := x.values[k]?

/-- The position of a key, if it has one. -/
def index? (x : MapParts κ ν) (k : κ) : Option Nat := x.positions[k]?

def size (x : MapParts κ ν) : Nat := x.keys.length

section

variable [Inhabited ν]

/-- The value of a key, which is the default one if it has none. -/
def valueOf (x : MapParts κ ν) (k : κ) : ν := (x.values[k]?).getD default

def entryAt? (x : MapParts κ ν) (i : Int) : Option (κ × ν) := do
  let k ← at? x.keys i
  return (k, x.valueOf k)

def iter (x : MapParts κ ν) (yield : κ → ν → σ → σ × Bool) (s : σ) : σ :=
  visit (fun k => yield k (x.valueOf k)) x.keys s

def iterKeys (x : MapParts κ ν) (yield : κ → σ → σ × Bool) (s : σ) : σ := visit yield x.keys s

def iterValues (x : MapParts κ ν) (yield : ν → σ → σ × Bool) (s : σ) : σ :=
  visit (fun k => yield (x.valueOf k)) x.keys s

end

end MapParts

/-- A map: where its parts are. -/
structure MapRef where
  keys : Nat
  positions : Nat
  values : Nat
deriving DecidableEq, Repr

/-- The memory of the parts of maps. -/
structure MapHeap (κ ν : Type) [BEq κ] [Hashable κ] where
  keys : List (List κ) := []
  positions : List (Std.HashMap κ Nat) := []
  values : List (Std.HashMap κ ν) := []

namespace MapHeap

def read? (h : MapHeap κ ν) (r : MapRef) : Option (MapParts κ ν) := do
  return ⟨← h.keys[r.keys]?, ← h.positions[r.positions]?, ← h.values[r.values]?⟩

def write (h : MapHeap κ ν) (r : MapRef) (x : MapParts κ ν) : MapHeap κ ν where
  keys := h.keys.set r.keys x.keys
  positions := h.positions.set r.positions x.positions
  values := h.values.set r.values x.values

/-- An empty map in new memory. -/
def create (h : MapHeap κ ν) : MapRef × MapHeap κ ν :=
  (⟨h.keys.length, h.positions.length, h.values.length⟩,
    ⟨h.keys ++ [[]], h.positions ++ [{}], h.values ++ [{}]⟩)

def store? (h : MapHeap κ ν) (r : MapRef) (k : κ) (v : ν) : Option (MapHeap κ ν) := do
  return h.write r ((← h.read? r).store k v)

def delete? (h : MapHeap κ ν) (r : MapRef) (k : κ) : Option (MapHeap κ ν) := do
  return h.write r (← (← h.read? r).delete? k)

/-- Stores the values that some keys have in one map in another one. -/
def copyFrom? [Inhabited ν] (r c : MapRef) (ks : List κ) (h : MapHeap κ ν) : Option (MapHeap κ ν) :=
  ks.foldlM (fun h k => do h.store? c k ((← h.read? r).valueOf k)) h

/-- A new map with the entries of another one. -/
def clone? [Inhabited ν] (h : MapHeap κ ν) (r : MapRef) : Option (MapRef × MapHeap κ ν) := do
  let (c, h) := h.create
  return (c, ← copyFrom? r c (← h.read? r).keys h)

end MapHeap

/-- A call on one of several maps, which are told apart by the order in which they were made. -/
inductive MapCall (κ ν : Type) where
  | store (on : Nat) (k : κ) (v : ν)
  | delete (on : Nat) (k : κ)
  | clone (on : Nat)
deriving DecidableEq, Repr

/-- The maps that have been made, and their memory. -/
structure MapWorld (κ ν : Type) [BEq κ] [Hashable κ] where
  heap : MapHeap κ ν
  maps : List MapRef

namespace MapWorld

def start : MapWorld κ ν :=
  let (r, heap) := MapHeap.create {}
  ⟨heap, [r]⟩

def parts? (w : MapWorld κ ν) (on : Nat) : Option (MapParts κ ν) := do w.heap.read? (← w.maps[on]?)

/-- Answers a call. There is no result if there is no such map. -/
def step? [Inhabited ν] (w : MapWorld κ ν) : MapCall κ ν → Option (MapWorld κ ν)
  | .store on k v => do return { w with heap := ← w.heap.store? (← w.maps[on]?) k v }
  | .delete on k => do return { w with heap := ← w.heap.delete? (← w.maps[on]?) k }
  | .clone on => do
    let (c, heap) ← w.heap.clone? (← w.maps[on]?)
    return ⟨heap, w.maps ++ [c]⟩

def run? [Inhabited ν] (w : MapWorld κ ν) (calls : List (MapCall κ ν)) : Option (MapWorld κ ν) :=
  calls.foldlM step? w

end MapWorld

namespace MapCall

section

variable {κ ν : Type} [DecidableEq κ]

/-- What a call does to ordered maps that are values: it changes one of them, or adds a copy. -/
def perform? (ms : List (OrderedMap κ ν)) : MapCall κ ν → Option (List (OrderedMap κ ν))
  | .store on k v => do return ms.set on ((← ms[on]?).insert k v)
  | .delete on k => do return ms.set on ((← ms[on]?).erase k)
  | .clone on => do return ms ++ [← ms[on]?]

/-- What calls do to one empty map and its copies. -/
def performAll? (calls : List (MapCall κ ν)) : Option (List (OrderedMap κ ν)) :=
  calls.foldlM perform? [{}]

end

variable {κ ν : Type}

/-- Every call is on one of the maps there are when it is made; before the first one there are `n`. -/
def Known : (n : Nat) → List (MapCall κ ν) → Prop
  | _, [] => True
  | n, .store on _ _ :: calls | n, .delete on _ :: calls => on < n ∧ Known n calls
  | n, .clone on :: calls => on < n ∧ Known (n + 1) calls

end MapCall

end LoopNest
