import LoopNest.Compiler.Request
import LoopNest.Host.Files
import LoopNest.Host.Executable

/-!
# A host with a C compiler

The programs of this host run its C compiler or exit with a status. A compiled library holds the
functions of the code, and is found by the loader if its path has a slash.
-/

namespace LoopNest.Toolchain

open Compiler (Request)

/-- The reason of a run that failed with a status. -/
def exitStatus (status : Nat) : CompilerFailure := ⟨"", s!"exit status {status}"⟩

/-- The library that a request makes of some code; there is none if it cannot be compiled, or if the
compiler has warnings that are errors. A source that is the text of a kernel, and has no name that
the loader finds elsewhere first, runs that kernel. -/
def libraryOf (code : C.Code) (r : Request) : Option LibraryFile := do
  let point ← Compiler.compile? r.language (r.source code.source)
  if point.warnings.any r.isFatal then none
  else
    let library ← Compiler.SharedLibrary.ofPoint?
      { isHidden := r.isHidden, isOptimized := r.isOptimized, replaced := r.replaced
        hasMathematics := r.hasMathematics, isClosed := r.isClosed } point
    let isOwn (f : C.Function) : Bool :=
      r.isPlain && !r.isPlus && !Compiler.Library.standardNames.contains f.name
    return { code := library, kernel := code.function.filter isOwn }

/-- Compiles some code as the arguments say, of which the last three name the library and the
source. -/
def compileWith (isPlus : Bool) (args : List String) (code : C.Code) (library : Path) (fs : Files) :
    Except CompilerFailure Files :=
  let failure := exitStatus 1
  match Request.read? { isPlus } (args.take (args.length - 3)) with
  | none => .error failure
  | some r =>
    match r.product, libraryOf code r with
    | .nothing, _ => .ok fs
    | _, none => .error failure
    | .check, some _ => .ok fs
    | .library, some file => (fs.write library (.library file)).mapError fun _ => failure
    | .other, some _ => (fs.write library (.bytes [])).mapError fun _ => failure

/-- Why a program cannot be run that is no program of the host. -/
def notFound (command : String) (fs : Files) : String :=
  if !command.contains '/' then s!"exec: {Text.quote command}: executable file not found in $PATH"
  else
    let reason := match fs.content (RawText.ofText command) with
      | .ok _ | .error .isDirectory => "permission denied"
      | .error e => e.reason
    s!"fork/exec {command}: {reason}"

def compile (command : List String) (code : C.Code) (library : Path) (fs : Files) :
    Except CompilerFailure Files :=
  let word := command.headD ""
  if (Executable.find? Executable.dirs word).isNone then .error ⟨"", notFound word fs⟩
  else if command.any (·.contains '\x00') then
    let path := if word.contains '/' then word else Executable.dirs.headD "" ++ "/" ++ word
    .error ⟨"", s!"fork/exec {path}: invalid argument"⟩
  else match Job.ofWords command.length {} command with
    | .compile isPlus args => compileWith isPlus args code library fs
    | .exit 0 => .ok fs
    | .exit status => .error (exitStatus status)

def entryOf (file : LibraryFile) (entry : RawText) : Except LoadProblem Entry :=
  let name := (⟨entry.bytes.takeWhile (· ≠ 0)⟩ : RawText).toText
  match file.code.load? with
  | none => .error (.library "undefined symbol")
  | some loaded =>
    match loaded.exports.lookup name, file.kernel with
    | some id, kernel =>
      match kernel.filter (·.entry = name) with
      | some f => .ok (.kernel f)
      | none => .ok (.foreign loaded id)
    | none, _ =>
      if Compiler.SharedLibrary.isAvailable file.code.hasMathematics name then .ok .other
      else .error (.entry s!"undefined symbol: {entry.toText}")

/-- Loads a library and finds an entry point. -/
def load (path : Path) (entry : RawText) (fs : Files) : Except LoadProblem Entry :=
  let missing := LoadProblem.library "cannot open shared object file: No such file or directory"
  if !path.bytes.contains 0x2f then .error missing
  else match fs.content path with
    | .error _ => .error missing
    | .ok (.bytes _) => .error (.library "invalid ELF header")
    | .ok (.library file) => entryOf file entry

def fileError (operation : String) (path : Path) (e : PathError) : String :=
  s!"{operation} {path.toText}: {e.reason}"

def read (path : Path) (fs : Files) : Except ReadProblem (List UInt8) :=
  match fs.content path with
  | .ok (.bytes data) => .ok data
  | .ok (.library _) => .ok []
  | .error .isDirectory => .error (.reading (fileError "read" path .isDirectory))
  | .error e => .error (.opening (fileError "open" path e))

/-- Removes a file; it is no failure if there is none. -/
def remove (path : Path) (fs : Files) : Except String Files :=
  match fs.remove path with
  | .ok fs => .ok fs
  | .error .missing => .ok fs
  | .error e => .error (fileError "remove" path e)

/-- The host, with its directory for temporary files and the names of generated ones. -/
def host (tempDir : String) (baseName : Nat → String) : Host Files where
  tempDir
  baseName
  write path data fs := (fs.write path (.bytes data)).mapError (fileError "open" path)
  read := read
  remove := remove
  compile := compile
  load := load
  close _ fs := .ok fs

end LoopNest.Toolchain
