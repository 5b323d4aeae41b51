import LoopNest.Toml.Document

/-!
# Decoding tables into records

A record takes from a table the keys that name its fields; letters may differ in case. The keys
that were taken are remembered by their paths, without positions in arrays, so that the others can
be reported.
-/

namespace LoopNest.Toml

/-- A computation that takes keys and fails when a value has the wrong type. -/
abbrev Decoder (α : Type) := StateT (List Key) Option α

def take (path : Key) : Decoder Unit := modify (path :: ·)

/-- A value of the wrong type. -/
def mismatch : Decoder α := fun _ => none

/-- A character without its case. Two letters beyond ASCII fold to an ASCII letter. -/
def foldCase (c : Char) : Char :=
  if c.toNat = 0x17f then 's' else if c.toNat = 0x212a then 'k' else c.toLower

/-- Whether two names are equal up to case. -/
def sameName (a b : String) : Bool := a.toList.map foldCase == b.toList.map foldCase

/-- The field that a key names: the one of that very name, or the first that is equal up to
case. -/
def field? (fields : List String) (key : String) : Option String :=
  if fields.contains key then some key else fields.find? (sameName key)

def text : Value → Decoder String
  | .text s => pure s
  | _ => mismatch

def integer : Value → Decoder Int
  | .integer n => pure n
  | _ => mismatch

def truth : Value → Decoder Bool
  | .truth b => pure b
  | _ => mismatch

/-- The largest integer that stands for a number in double precision. -/
def maxExact : Int := 0x1fffffffffffff

/-- A number in double precision, which may be spelled as an integer that is not too large. -/
def float : Value → Decoder Float
  | .float x => pure x
  | .integer n => if -maxExact ≤ n ∧ n ≤ maxExact then pure (Float.ofInt n) else mismatch
  | _ => mismatch

def items? : Value → Option (List Value)
  | .array vs => some vs
  | .tables vs => some vs
  | _ => none

def list (item : Value → Decoder α) (v : Value) : Decoder (List α) :=
  match items? v with
  | some vs => vs.mapM item
  | none => mismatch

def table : Value → Decoder (List (String × Value))
  | .table entries => pure entries
  | _ => mismatch

/-- A record: for each key that names a field, `step` changes the record. -/
def record (fields : List String) (step : String → Key → Value → ρ → Decoder ρ) (path : Key)
    (start : ρ) (v : Value) : Decoder ρ := do
  (← table v).foldlM (fun r (key, w) =>
    match field? fields key with
    | none => pure r
    | some f => do
      take (path ++ [key])
      step f (path ++ [key]) w r) start

/-- Decodes a document; the result has the keys that were not taken, in the order of the
document. -/
def Document.decode (doc : Document) (decoder : Value → Decoder α) : Option (α × List Key) := do
  let (a, taken) ← (decoder doc.root).run []
  return (a, doc.keys.filter fun k => !taken.contains k)

end LoopNest.Toml
