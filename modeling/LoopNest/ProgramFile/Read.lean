import LoopNest.ProgramFile.Tables
import LoopNest.Toml.Decode

/-!
# Reading program files
-/

namespace LoopNest

namespace ProgramFile

open Toml

def exprFields : List String :=
  ["ident", "const", "op", "x", "y", "scalar", "x_axes", "y_axes", "members", "pairs"]

mutual
def exprTable (path : Key) : Value → Decoder ExprTable
  | .table entries => exprEntries path {} entries
  | _ => mismatch

def exprEntries (path : Key) (e : ExprTable) : List (String × Value) → Decoder ExprTable
  | [] => pure e
  | (key, v) :: rest => do
    let inner := path ++ [key]
    let e ← match field? exprFields key with
      | none => pure e
      | some f => do
        take inner
        match f with
        | "ident" => pure { e with ident := ← text v }
        | "const" => pure { e with const := some (← float v) }
        | "op" => pure { e with op := ← text v }
        | "x" => pure { e with x := some (← exprTable inner v) }
        | "y" => pure { e with y := some (← exprTable inner v) }
        | "scalar" => pure { e with scalar := some (← exprTable inner v) }
        | "x_axes" => pure { e with xAxes := ← list integer v }
        | "y_axes" => pure { e with yAxes := ← list integer v }
        | "pairs" => pure { e with pairs := ← list (list integer) v }
        | _ =>
          match v with
          | .array vs => pure { e with members := ← exprItems inner vs }
          | .tables vs => pure { e with members := ← exprItems inner vs }
          | _ => mismatch
    exprEntries path e rest

/-- The tables of several expressions. -/
def exprItems (path : Key) : List Value → Decoder (List (Option ExprTable))
  | [] => pure []
  | v :: vs => do return some (← exprTable path v) :: (← exprItems path vs)
end

def declTable (path : Key) : Value → Decoder DeclTable :=
  record ["name", "shape", "kind"] (fun f _ v d => do
    match f with
    | "name" => return { d with name := ← text v }
    | "shape" => return { d with shape := ← list integer v }
    | _ => return { d with kind := ← text v }) path {}

def stmtTable (path : Key) : Value → Decoder StmtTable :=
  record ["dst", "perm", "expr"] (fun f inner v s => do
    match f with
    | "dst" => return { s with dst := ← text v }
    | "perm" => return { s with perm := ← list (list integer) v }
    | _ => return { s with expr := some (← exprTable inner v) }) path {}

/-- The values of the inputs. What is not a table is passed over. -/
def inputTable (path : Key) : Value → Decoder (Inputs Float)
  | .table entries => entries.mapM fun (name, v) => do
    take (path ++ [name])
    return (name, ← list float v)
  | _ => pure []

def fileTable : Value → Decoder FileTable :=
  record ["name", "decl", "stmt", "inputs"] (fun f path v t => do
    match f with
    | "name" => return { t with name := ← text v }
    | "decl" => return { t with decls := ← list (declTable path) v }
    | "stmt" => return { t with stmts := ← list (stmtTable path) v }
    | _ => return { t with inputs := ← inputTable path v }) [] {}

/-- The keys that no table has a place for, in words. -/
def unknownKeys (what : String) (keys : List Key) : Diagnostic :=
  .cause (what ++ ": " ++ ", ".intercalate (keys.map Key.render))

def read (s : String) : Except Diagnostic ProgramFile :=
  match (Document.read? s).bind (·.decode fileTable) with
  | none => .error (.undecodable "cannot decode program")
  | some (t, []) => t.load.mapError FileError.diagnostic
  | some (_, keys) => .error (unknownKeys "unknown keys in program" keys)

end ProgramFile

end LoopNest
