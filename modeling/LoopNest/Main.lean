import LoopNest.CommandLine.Run
import LoopNest.Kernel.Toolchain

/-!
# The program

Gathers the arguments, the environment and the files they name, runs the command line on them, and
writes what it printed and the files it made. Libraries last as long as one run: a program is
called from the functions that its code stands for.
-/

namespace LoopNest.Main

/-- The variables of the environment that are read. -/
def settings : List String :=
  ["TENSORC_CC", "CC", "TENSORC_TMPDIR", "TENSORC_FLAGS", "TENSORC_LOG_LEVEL", "TMPDIR"]

def environment : IO Config.Environment := do
  let values ← settings.mapM fun name => return (name, ← IO.getEnv name)
  return values.filterMap fun (name, value) => value.map fun v => (name, v)

/-- The paths that an argument or a value of the environment may stand for. -/
def candidates (s : String) : List String :=
  match FlagSet.splitEquals s.toList with
  | (_, some v) => [s, String.ofList v]
  | (_, none) => [s]

/-- Adds what a path leads to, if it leads to anything. -/
def addPath (fs : Files) (path : String) : IO Files := do
  let place := (← IO.currentDir) / path
  if path.isEmpty then return fs
  else if ← place.isDir then
    return fs.makeDirs path
  else if ← place.pathExists then
    let data ← IO.FS.readBinFile place
    return fs.put path data.data.toList
  else return fs

/-- Writes the files that were made or changed. -/
def writeFiles (before after : Files) : IO Unit := do
  for (steps, content) in after.files do
    match content, before.files.lookup steps with
    | .bytes data, some (.bytes old) =>
      if data ≠ old then IO.FS.writeBinFile (Files.renderSteps steps) ⟨data.toArray⟩
    | .bytes data, _ => IO.FS.writeBinFile (Files.renderSteps steps) ⟨data.toArray⟩
    | .library _, _ => pure ()

end LoopNest.Main

open LoopNest in
/-- Runs the command line. -/
def main (args : List String) : IO UInt32 := do
  let env ← Main.environment
  let tempDir := Config.orElse (Config.variableOf env "TMPDIR") "/tmp"
  let paths := (args ++ env.map (·.2)).flatMap Main.candidates ++ [tempDir]
  let world ← paths.foldlM Main.addPath {}
  let stamp ← IO.monoNanosNow
  let host := Toolchain.host tempDir fun n => s!"tensorc_{stamp}_{n}"
  match CommandLine.run host env args world with
  | none =>
    IO.eprintln "error: malformed program"
    return 2
  | some out =>
    Main.writeFiles world out.world
    IO.print out.stdout
    IO.eprint out.stderr
    return out.code
