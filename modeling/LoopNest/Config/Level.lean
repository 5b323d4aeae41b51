import LoopNest.Index.Word

/-!
# Levels of the log

A level is a number; four numbers have names, and the others are written as a distance from one of
them.
-/

namespace LoopNest

/-- The weight of a log record. -/
structure Level where
  value : Int
deriving DecidableEq, Repr, Inhabited

namespace Level

def debug : Level := ⟨-4⟩
def info : Level := ⟨0⟩
def warn : Level := ⟨4⟩
def error : Level := ⟨8⟩

/-- A distance with its sign; nothing for zero. -/
def renderDistance (n : Int) : String :=
  if n = 0 then "" else if 0 < n then "+" ++ toString n else toString n

/-- The text of a level: the name at or below it, and the distance. Below the lowest name the
distance is negative. -/
def render (l : Level) : String :=
  if l.value < info.value then "DEBUG" ++ renderDistance (l.value - debug.value)
  else if l.value < warn.value then "INFO" ++ renderDistance (l.value - info.value)
  else if l.value < error.value then "WARN" ++ renderDistance (l.value - warn.value)
  else "ERROR" ++ renderDistance (l.value - error.value)

/-- A character in upper case, as far as the names of levels are concerned: a letter beyond ASCII
that becomes an ASCII letter counts too. -/
def upperCase (c : Char) : Char := if c.toNat = 0x131 then 'I' else c.toUpper

/-- The level with a name, whatever the case. -/
def ofName? (name : List Char) : Option Level :=
  match String.ofList (name.map upperCase) with
  | "DEBUG" => some debug
  | "INFO" => some info
  | "WARN" => some warn
  | "ERROR" => some error
  | _ => none

/-- The number written by decimal digits, of which there is at least one. -/
def decimal? (cs : List Char) : Option Nat :=
  if cs.isEmpty then none
  else cs.foldlM (fun n c => if c.isDigit then some (10 * n + (c.toNat - 48)) else none) 0

/-- A distance with a sign in front, within the range of a word. -/
def distance? : List Char → Option Int
  | '+' :: cs => do
    let n ← decimal? cs
    if n < Nat.pow 2 63 then some n else none
  | '-' :: cs => do
    let n ← decimal? cs
    if n ≤ Nat.pow 2 63 then some (-(n : Int)) else none
  | _ => none

/-- The level that a text spells: a name, and perhaps a distance with a sign. -/
def parse? (s : String) : Option Level :=
  let isSign (c : Char) := c == '+' || c == '-'
  let name := s.toList.takeWhile fun c => !isSign c
  match s.toList.dropWhile fun c => !isSign c with
  | [] => ofName? name
  | tail => do
    let n ← distance? tail
    let l ← ofName? name
    return ⟨word64 (l.value + n)⟩

end Level

end LoopNest
