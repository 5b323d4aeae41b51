/-!
# Versions of C

What the arguments of the compiler say about the language of a source.
-/

namespace LoopNest.Compiler

/-- A version of the language: the number that stands for it, and whether the words of the compiler
that have no underscores belong to it. The sources of another language have their own rules for
conversions and for the names of functions. -/
structure Dialect where
  version : Nat := 199901
  isGnu : Bool := false
  isPlus : Bool := false
  /-- The headers of the system can be found. -/
  hasHeaders : Bool := true
deriving DecidableEq, Repr, Inhabited

namespace Dialect

/-- The letters that may stand in front of a literal. -/
def encodings (d : Dialect) : List String :=
  if d.isGnu || 201112 ≤ d.version || d.isPlus then ["L", "u", "U", "u8"] else ["L"]

/-- Whether three characters with two question marks stand for one. -/
def hasTrigraphs (d : Dialect) : Bool := !d.isGnu && !d.isPlus

/-- The words that are keywords only in some versions. -/
def words (d : Dialect) : List String :=
  (if d.isGnu then ["asm", "typeof"] else [])
    ++ (if 199901 ≤ d.version then ["inline", "restrict"] else if d.isGnu then ["inline"] else [])

def ofName? (name : String) : Option Dialect :=
  match name with
  | "c89" | "c90" | "iso9899:1990" => some { version := 0 }
  | "iso9899:199409" => some { version := 199409 }
  | "c99" | "c9x" | "iso9899:1999" | "iso9899:199x" => some { version := 199901 }
  | "c11" | "c1x" | "iso9899:2011" => some { version := 201112 }
  | "c17" | "c18" | "iso9899:2017" | "iso9899:2018" => some { version := 201710 }
  | "c2x" => some { version := 202000 }
  | "gnu89" | "gnu90" => some { version := 0, isGnu := true }
  | "gnu99" | "gnu9x" => some { version := 199901, isGnu := true }
  | "gnu11" | "gnu1x" => some { version := 201112, isGnu := true }
  | "gnu17" | "gnu18" => some { version := 201710, isGnu := true }
  | "gnu2x" => some { version := 202000, isGnu := true }
  | _ => none

end Dialect

end LoopNest.Compiler
