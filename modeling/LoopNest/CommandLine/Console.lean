import LoopNest.CommandLine.Command
import LoopNest.Config.Read
import LoopNest.Host.Basic
import LoopNest.Run
import LoopNest.Text.Lines
import LoopNest.Text.Printable

/-!
# Carrying out commands

A console collects what a command prints while it acts on a host. `Console.perform` carries out one
command under a configuration; what was printed before an error stays.
-/

namespace LoopNest

/-! ## Log lines

A record is one line of words `name=value`. A value is quoted where it could not be told from the
words around it. -/

namespace Log

/-- Whether a character makes quotes necessary. Beyond ASCII these are the characters that are
blank, not printable, or stand for an undecodable one. -/
def needsQuotes (c : Char) : Bool :=
  if c.toNat < 0x80 then c.toNat ≤ 0x20 || c == '=' || c == '"'
  else c.toNat == 0xfffd || Text.isBlank c || !Text.isPrintable c

/-- A value, in quotes if it needs them. -/
def renderValue (s : String) : String :=
  if s.isEmpty || s.toList.any needsQuotes then Text.quote s else s

def renderWord : String × String → String
  | (name, value) => renderValue name ++ "=" ++ renderValue value

end Log

def Record.render (r : Record) : String :=
  " ".intercalate
    ((("level", r.level.render) :: ("msg", r.message) :: r.attributes).map Log.renderWord)

def Log.render (level : Level) (log : List Record) : List String :=
  (log.filter fun r => decide (level.value ≤ r.level.value)).map Record.render

/-! ## Errors and consoles -/

/-- Why a command fails. -/
inductive CommandError where
  | usage (e : UsageError)
  /-- An error of a program, a configuration or a kernel. -/
  | failed (d : Diagnostic)
  /-- A file cannot be written. -/
  | file (reason : String)
deriving Inhabited

namespace CommandError

def message : CommandError → String
  | .usage e => e.message
  | .failed d => d.message
  | .file reason => reason

/-- Whether the error knows where it was made. -/
def hasOrigin : CommandError → Bool
  | .usage (.flag (.refused _ _ (.notOneOf _ _))) => true
  | .usage _ | .file _ => false
  | .failed _ => true

/-- The error as it is shown; in full, it names its origin. -/
def render (e : CommandError) (full : Bool) : String :=
  "error: " ++ e.message ++ (if full && e.hasOrigin then "\nError generated at:\n" else "") ++ "\n"

end CommandError

/-- A computation on a host that prints text. -/
abbrev Console (ω : Type) := ExceptT CommandError (StateT String (EStateM Failure (Stage ω)))

namespace Console

variable {ω : Type}

/-- Runs a computation: its result, what it printed, and the host after it. -/
def runOn (c : Console ω α) (text : String) (s : Stage ω) :
    Option (Except CommandError α × String × Stage ω) :=
  match c.run text s with
  | .ok (result, text) s => some (result, text, s)
  | .error _ _ => none

def print (s : String) : Console ω Unit := modify (· ++ s)

def printLines (ls : List String) : Console ω Unit := print (Text.unlines ls)

def call (a : Action ω α) : Console ω α := do
  match ← (Action.outcome a : EStateM Failure (Stage ω) _) with
  | .ok x => return x
  | .error d => throw (.failed d)

/-- The value of a computation that does not touch the host. -/
def value (e : Except Diagnostic α) : Console ω α := call (Action.ofExcept (e.mapError .error))

/-- Reads a file of a given sort. Errors beyond opening it have its path in front. -/
def readFile (host : Host ω) (sort : String) (decode : String → Except Diagnostic α) (path : String) :
    Console ω α := do
  let undecodable := Diagnostic.undecodable ("cannot decode " ++ sort)
  let result : Except Diagnostic α ← match host.read path (← getThe (Stage ω)).world with
    | .error (.opening reason) => throw (.failed (.context ("cannot open " ++ sort) (.cause reason)))
    | .error (.reading _) => pure (.error undecodable)
    | .ok data => pure ((Bytes.toText? data).elim (.error undecodable) decode)
  value (result.mapError (.context path))

def readProgram (host : Host ω) (path : String) : Console ω ProgramFile :=
  readFile host "program" ProgramFile.read path

def checked (c : Config) : Console ω Config :=
  match c.validate with
  | .ok () => return c
  | .error e => throw (.failed (.cause e.message))

/-- The configuration of a file, or the default one, after the environment. -/
def readConfig (host : Host ω) (env : Config.Environment) (path : String) : Console ω Config := do
  let c ← if path.isEmpty then pure {} else readFile host "configuration" Config.read path
  checked (c.applyEnvironment env)

def optionsOf (c : Config) : Console ω CompileOptions :=
  match c.options with
  | .ok opts => return opts
  | .error e => throw (.failed (.cause e.message))

def writeFile (host : Host ω) (path : Path) (text : String) : Console ω Unit := do
  let s ← getThe (Stage ω)
  match host.write path (Bytes.ofText text) s.world with
  | .ok w => set { s with world := w }
  | .error reason => throw (.file reason)

/-- Prints the code of a program, or writes it to a file of a directory and prints its path. -/
def emit (host : Host ω) (opts : CompileOptions) (out : String) (f : ProgramFile) : Console ω Unit := do
  let code ← call (emitOn opts f.program)
  if out.isEmpty then print code.source
  else
    let path := Path.join out (f.program.name ++ ".c")
    writeFile host path code.source
    printLines [f.program.name ++ ": " ++ path.toText]

/-- Builds the kernel of a program and gives the path of its manifest. -/
def build (host : Host ω) (opts : CompileOptions) (f : ProgramFile) : Console ω String := do
  let k ← call (buildOn host opts f.program)
  return (← call (k.saveManifest host)).toText

def renderValues (vals : List Float) : String := "[" ++ " ".intercalate (vals.map Decimal.render) ++ "]"

/-- The name of a program and the values of its outputs, ordered by name. -/
def renderOutputs (p : Typed.Program) (outputs : Inputs Float) : List String :=
  p.name :: (outputs.mergeSort fun a b => decide (a.1 ≤ b.1)).map fun (name, vals) =>
    let shape := ((p.decls.find? (·.name == name)).map (·.shape)).getD []
    "  " ++ name ++ Shape.render shape ++ " = " ++ renderValues vals

def printProgram (heading : String) (p : Program) : Console ω Unit := do
  printLines (("# " ++ heading) :: (← call (Action.ofExcept (orFault p.render))))

/-- Prints a program after each pass and gives the last one. -/
def printPasses (p : Program) : List (String × Edit Unit) → Console ω Program
  | [] => return p
  | (name, pass) :: rest => do
    match pass p with
    | .error e _ => call (throw e)
    | .ok () p =>
      printProgram name p
      printPasses p rest

/-- The name of the destination of an assignment, and whether one loop can compute it. -/
def renderLoop (p : Program) (a : Assignment) : Option String := do
  let dst ← p.dst? a
  let whole ← Pass.coalescible p a
  return dst.name ++ ": coalescible=" ++ (if whole then "true" else "false")

/-- Prints a program as it is typed, as it is built and after each pass, with its symbols and
loops at last. -/
def inspect (opts : CompileOptions) (f : ProgramFile) : Console ω Unit := do
  printLines ("# typed" :: f.program.render)
  let p ← call (Action.ofExcept (LoopNest.build f.program))
  printProgram "build" p
  let p ← printPasses p (passes opts.fuse)
  printLines ("# symbols" :: p.symbols.render)
  printLines ["# loops"]
  for a in p.assignments do
    printLines [← call (Action.ofExcept (orFault (renderLoop p a)))]

/-- Carries out a command on files. All files are read before the work begins. -/
def perform (host : Host ω) (c : Command) (config : Config) (fs : FlagSet) : Console ω Unit := do
  let config := if c = .build then { config with keepFiles := true } else config
  let opts ← optionsOf config
  let files ← fs.args.mapM (readProgram host)
  match c with
  | .emit => files.forM (emit host opts (fs.text "out"))
  | .build =>
    let paths ← files.mapM (build host opts)
    printLines ((files.zip paths).map fun (f, path) => f.program.name ++ ": " ++ path)
  | .run =>
    let results ← files.mapM fun f => call (LoopNest.runOn host opts f.program f.inputs)
    printLines ((files.zip results).flatMap fun (f, outputs) => renderOutputs f.program outputs)
  | .inspect => files.forM (inspect opts)
  | .help | .completion _ => return ()

end Console

end LoopNest
