import LoopNest.CommandLine.Console

/-!
# The command line

`CommandLine.run` is the whole program: from arguments, the environment and a host to what is
printed, the exit code and the changed world.
-/

namespace LoopNest

/-- What a run of the command line leaves behind. -/
structure Outcome (ω : Type) where
  code : UInt32 := 0
  stdout : String := ""
  stderr : String := ""
  world : ω

/-- The configuration after the flags: a flag that was given replaces a value, further compiler
flags are added, and switches only turn things on. -/
def Config.applyFlags (fs : FlagSet) (c : Config) : Config :=
  let given (name default : String) := if fs.isGiven name then fs.text name else default
  { compiler := given "cc" c.compiler
    flags := c.flags ++ fs.list "cflags"
    tempDir := given "temp_dir" c.tempDir
    layout := given "layout" c.layout
    dtype := given "dtype" c.dtype
    fuse := c.fuse || fs.isOn "fuse"
    coalesce := c.coalesce || fs.isOn "coalesce"
    native := c.native || fs.isOn "native"
    keepFiles := c.keepFiles || fs.isOn "keep_files"
    logLevel := given "log_level" c.logLevel }

namespace CommandLine

variable {ω : Type}

def flagHelp (f : Flag) : String := "  " ++ f.title ++ " " ++ f.kind.typeName ++ ": " ++ f.usage

def help (c : Option Command) : List String :=
  match c with
  | some c => c.doc :: "Flags:" :: (Command.flagSet (some c)).flags.map flagHelp
  | none => "Commands:" :: Command.all.map (fun c => "  " ++ c.name ++ ": " ++ c.doc)
      ++ "Flags:" :: (Command.flagSet none).flags.map flagHelp

/-- The configuration under which a command is carried out. -/
def configure (host : Host ω) (env : Config.Environment) (fs : FlagSet) : Console ω Config := do
  let config ← Console.readConfig host env (fs.text "config")
  Console.checked (config.applyFlags fs)

/-- The outcome of a command: the log comes before the error. -/
def report (full : Bool) (level : Level) (result : Except CommandError Unit) (text : String)
    (s : Stage ω) : Outcome ω :=
  let log := Text.unlines (Log.render level s.log)
  match result with
  | .ok () => { stdout := text, stderr := log, world := s.world }
  | .error e => { code := 1, stdout := text, stderr := log ++ e.render full, world := s.world }

/-- Carries out a command with its flags. There is no outcome if it meets a malformed structure. -/
def carryOut (host : Host ω) (env : Config.Environment) (c : Command) (fs : FlagSet) (world : ω) :
    Option (Outcome ω) := do
  let full := fs.isOn "verbose"
  match ← (configure host env fs).runOn "" { world } with
  | (.error e, text, s) => return report full .warn (.error e) text s
  | (.ok config, text, s) =>
    let (result, text, s) ← (Console.perform host c config fs).runOn text s
    return report full (config.level.toOption.getD .warn) result text s

def run (host : Host ω) (env : Config.Environment) (args : List String) (world : ω) :
    Option (Outcome ω) :=
  let refuse (full : Bool) (e : UsageError) : Outcome ω :=
    report full .warn (.error (.usage e)) "" { world }
  match Command.choose args with
  | .error e => some (refuse false e)
  | .ok (c, rest) =>
    match Command.parse c rest with
    | (fs, .error e) => some (refuse (fs.isOn "verbose") e)
    | (_, .ok none) => some { stdout := Text.unlines (help c), world }
    | (fs, .ok (some c)) => carryOut host env c fs world

end CommandLine

end LoopNest
