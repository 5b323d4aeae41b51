import LoopNest.Config.Basic
import LoopNest.ProgramFile.Read

/-!
# Reading configuration files
-/

namespace LoopNest.Config

open Toml

def fields : List String :=
  ["compiler", "flags", "temp_dir", "layout", "dtype", "fuse", "coalesce", "native", "keep_files",
    "log_level"]

/-- A configuration file on top of the default configuration. -/
def decoder : Value → Decoder Config :=
  record fields (fun f _ v c => do
    match f with
    | "compiler" => return { c with compiler := ← text v }
    | "flags" => return { c with flags := ← list text v }
    | "temp_dir" => return { c with tempDir := ← text v }
    | "layout" => return { c with layout := ← text v }
    | "dtype" => return { c with dtype := ← text v }
    | "fuse" => return { c with fuse := ← truth v }
    | "coalesce" => return { c with coalesce := ← truth v }
    | "native" => return { c with native := ← truth v }
    | "keep_files" => return { c with keepFiles := ← truth v }
    | _ => return { c with logLevel := ← text v }) [] {}

def read (s : String) : Except Diagnostic Config :=
  match (Document.read? s).bind (·.decode decoder) with
  | none => .error (.undecodable "cannot decode configuration")
  | some (c, []) => .ok c
  | some (_, keys) => .error (ProgramFile.unknownKeys "unknown configuration keys" keys)

end LoopNest.Config
