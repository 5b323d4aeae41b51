import LoopNest.Text.Printable

/-!
# Values of a TOML document
-/

namespace LoopNest.Toml

/-- The parts of a dotted key. -/
abbrev Key := List String

/-- Whether a character may stand in a key without quotes. -/
def isBare (c : Char) : Bool := c.isAlphanum || c == '_' || c == '-'

/-- A character inside a quoted part of a key. -/
def keyChar (c : Char) : String :=
  match c.toNat with
  | 0x22 => "\\\""
  | 0x5c => "\\\\"
  | 8 => "\\b"
  | 9 => "\\t"
  | 10 => "\\n"
  | 12 => "\\f"
  | 13 => "\\r"
  | n => if n < 0x20 || n == 0x7f then "\\u" ++ Text.hex 4 n else c.toString

/-- A part of a key; it is put in quotes when it is not bare. -/
def keyPart (s : String) : String :=
  if !s.isEmpty && s.toList.all isBare then s
  else "\"" ++ String.join (s.toList.map keyChar) ++ "\""

def Key.render (k : Key) : String := ".".intercalate (k.map keyPart)

inductive Value where
  | text (s : String)
  | integer (n : Int)
  | float (x : Float)
  | truth (b : Bool)
  /-- A date, a time or both. -/
  | moment (s : String)
  /-- An array between brackets. -/
  | array (items : List Value)
  | table (entries : List (String × Value))
  /-- An array made by headers, each of which adds a table. -/
  | tables (all : List Value)
deriving Inhabited

namespace Value

/-- Changes the entries of a table; of tables made by headers, those of the last one. -/
def enter (f : List (String × Value) → Option (List (String × Value))) : Value → Option Value
  | .table entries => (f entries).map .table
  | .tables all =>
    match all.getLast? with
    | some (.table entries) => (f entries).map fun e => .tables (all.dropLast ++ [.table e])
    | _ => none
  | _ => none

/-- Stores a value; a present key keeps its place. -/
def store (key : String) (v : Value) : List (String × Value) → List (String × Value)
  | [] => [(key, v)]
  | e :: rest => if e.1 = key then (key, v) :: rest else e :: store key v rest

/-- Changes the entries of the table at the end of a path. -/
def modifyAt (f : List (String × Value) → Option (List (String × Value))) : Key → Value → Option Value
  | [], v => v.enter f
  | k :: ks, v => v.enter fun entries => do
    let inner ← entries.lookup k
    return store k (← inner.modifyAt f ks) entries

/-- The entries of a table; of tables made by headers, those of the last one. -/
def entries? : Value → Option (List (String × Value))
  | .table entries => some entries
  | .tables all =>
    match all.getLast? with
    | some (.table entries) => some entries
    | _ => none
  | _ => none

/-- The entries of the table at the end of a path. -/
def entriesAt? : Key → Value → Option (List (String × Value))
  | [], v => v.entries?
  | k :: ks, v => do
    let inner ← (← v.entries?).lookup k
    inner.entriesAt? ks

end Value

end LoopNest.Toml
