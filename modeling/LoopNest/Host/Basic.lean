import LoopNest.C.Function
import LoopNest.Compiler.Loaded
import LoopNest.Config.Level
import LoopNest.Host.Path

/-!
# Hosts

What a kernel needs from the machine it is built on: files, a compiler and a loader. A host acts on
a world of any type, so that nothing is assumed about what succeeds and when. An `Action` changes
the world and writes log records; both stay when it fails.
-/

namespace LoopNest

/-- An entry point of a library that is loaded. -/
inductive Entry where
  | kernel (f : C.Function)
  | foreign (library : Compiler.Loaded) (symbol : Nat)
  /-- Something else, which changes nothing. -/
  | other
deriving Inhabited

/-- Why an entry point cannot be loaded. -/
inductive LoadProblem where
  /-- The library cannot be opened. -/
  | library (reason : String)
  /-- The library has no such entry point. -/
  | entry (reason : String)
deriving DecidableEq, Repr, Inhabited

inductive ReadProblem where
  | opening (reason : String)
  /-- The file was opened, but has no bytes to read. -/
  | reading (reason : String)
deriving DecidableEq, Repr, Inhabited

def ReadProblem.reason : ReadProblem → String
  | .opening reason | .reading reason => reason

/-- A compiler run that failed: its output and the reason. -/
structure CompilerFailure where
  output : String
  reason : String
deriving DecidableEq, Repr, Inhabited

/-- The operations of a machine on a world. A failing operation on a file gives the reason. -/
structure Host (ω : Type) where
  /-- The directory for temporary files. -/
  tempDir : String
  /-- The base name of the generated files with a given number. -/
  baseName : Nat → String
  write : Path → List UInt8 → ω → Except String ω
  read : Path → ω → Except ReadProblem (List UInt8)
  /-- Removes a file; it is no failure if there is none. -/
  remove : Path → ω → Except String ω
  /-- Runs a compiler command over some code; a library goes to the given path. -/
  compile : List String → C.Code → Path → ω → Except CompilerFailure ω
  /-- Finds an entry point in a library. -/
  load : Path → RawText → ω → Except LoadProblem Entry
  /-- Closes a library. -/
  close : Path → ω → Except String ω

/-- A log record: a message with named values. -/
structure Record where
  level : Level
  message : String
  attributes : List (String × String) := []
deriving DecidableEq, Repr, Inhabited

/-- The world, the log, and the number of generated names. -/
structure Stage (ω : Type) where
  world : ω
  log : List Record := []
  serial : Nat := 0

/-- A computation on a host. -/
abbrev Action (ω : Type) (α : Type) := EStateM Failure (Stage ω) α

namespace Action

variable {ω : Type}

def fail (d : Diagnostic) : Action ω α := throw (.error d)

def record (level : Level) (message : String) (attributes : List (String × String)) : Action ω Unit :=
  modify fun s => { s with log := s.log ++ [⟨level, message, attributes⟩] }

/-- Applies an operation on the world; `wrap` makes an error of the reason for its failure. -/
def apply (f : ω → Except ε ω) (wrap : ε → Diagnostic) : Action ω Unit := do
  let s ← get
  match f s.world with
  | .ok w => set { s with world := w }
  | .error e => fail (wrap e)

/-- Looks something up in the world. -/
def query (f : ω → Except ε α) (wrap : ε → Diagnostic) : Action ω α := do
  match f (← get).world with
  | .ok a => return a
  | .error e => fail (wrap e)

/-- The result of a computation that does not touch the host. -/
def ofExcept : Except Failure α → Action ω α
  | .ok a => pure a
  | .error e => throw e

/-- Runs an action and gives its result or its error. -/
def outcome (a : Action ω α) : Action ω (Except Diagnostic α) := fun s =>
  match a s with
  | .ok x s => .ok (.ok x) s
  | .error (.error d) s => .ok (.error d) s
  | .error .fault s => .error .fault s

/-- Runs an action and gives its error, if it failed with one. -/
def attempt (a : Action ω Unit) : Action ω (Option Diagnostic) := do
  match ← outcome a with
  | .ok () => return none
  | .error d => return some d

/-- The next number for a generated name. -/
def next : Action ω Nat := do
  let s ← get
  set { s with serial := s.serial + 1 }
  return s.serial

end Action

end LoopNest
