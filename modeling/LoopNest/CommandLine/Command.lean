import LoopNest.CommandLine.Flag
import LoopNest.Digest.Bytes
import LoopNest.Options
import LoopNest.Text.LowerCase

/-!
# Commands

The first argument that is neither a flag nor the value of one names the command. `Command.choose`
finds it before the flags are read: a flag that is not a switch and has no value of its own is
taken to be followed by its value. `Command.parse` then reads all the other arguments.
A name that is no command is answered with the commands that are close to it: `Text.editDistance` is the
least number of insertions, removals and replacements that lead from one list to another.
-/

namespace LoopNest.Text

variable {α : Type u} [DecidableEq α]

/-- The distances, beyond the first, of the starts of a list to another list with `c` added to it.
`above` holds the distances without `c`, and `left` the distance found last. -/
def distanceRow (c : α) : (above : List Nat) → (left : Nat) → List α → List Nat
  | corner :: up :: above, left, x :: xs =>
    let here := if x = c then corner else min (min left up) corner + 1
    here :: distanceRow c (up :: above) here xs
  | _, _, _ => []

/-- The edit distance of two lists. It keeps one row of the table of the distances between all starts of
the two lists. -/
def editDistance (xs ys : List α) : Nat :=
  let row := xs.foldl (fun above c =>
    let first := above.headD 0 + 1
    first :: distanceRow c above first ys) (List.range (ys.length + 1))
  row.getLastD 0

end LoopNest.Text

namespace LoopNest

/-- The shells that can complete commands. -/
inductive Shell where
  | bash
  | zsh
  | fish
  | powershell
deriving DecidableEq, Repr, Inhabited

def Shell.name : Shell → String
  | .bash => "bash"
  | .zsh => "zsh"
  | .fish => "fish"
  | .powershell => "powershell"

def Shell.ofName? (name : String) : Option Shell :=
  [Shell.bash, .zsh, .fish, .powershell].find? (·.name == name)

/-- What the command line can be asked for. -/
inductive Command where
  | emit
  | build
  | run
  | inspect
  /-- Show how the command line is used. -/
  | help
  /-- Show how commands can be completed by a shell. -/
  | completion (shell : Option Shell)
deriving DecidableEq, Repr, Inhabited

/-- Why no command is carried out. -/
inductive UsageError where
  | unknown (name : String) (similar : List String)
  /-- An argument where the command takes none. -/
  | unexpected (arg command : String)
  | flag (e : FlagError)
  | tooFew (least given : Nat)
  | wrongCount (wanted given : Nat)
deriving DecidableEq, Repr, Inhabited

def programName : String := "tensorc"

/-- The text of an error; similar names follow on lines of their own. -/
def UsageError.message : UsageError → String
  | .unknown name similar =>
    s!"unknown command {Text.quote name} for {Text.quote programName}" ++
      if similar.isEmpty then ""
      else "\n\nDid you mean this?\n" ++ String.join (similar.map fun s => "\t" ++ s ++ "\n")
  | .unexpected arg command =>
    s!"unknown command {Text.quote arg} for " ++ Text.quote (programName ++ " " ++ command)
  | .flag e => e.message
  | .tooFew least given => s!"requires at least {least} arg(s), only received {given}"
  | .wrongCount wanted given => s!"accepts {wanted} arg(s), received {given}"

/-- A flag that was not given. -/
def Flag.ofKind (name : String) (letter : Option Char) (kind : FlagKind) (doc : String) : Flag :=
  { name, letter, kind, doc, value := kind.unset }

namespace Command

/-- All commands in the order in which similar names are listed. -/
def all : List Command := [emit, build, run, inspect, help, completion none]

/-- The name of a command; the shell that is completed for is part of it. -/
def name : Command → String
  | .emit => "emit"
  | .build => "build"
  | .run => "run"
  | .inspect => "inspect"
  | .help => "help"
  | .completion none => "completion"
  | .completion (some shell) => "completion " ++ shell.name

def doc : Command → String
  | .emit => "Print the C code of programs"
  | .build => "Build the kernels of programs and write their manifests"
  | .run => "Run programs with the inputs given in their files"
  | .inspect => "Print a program after each pass of the compiler"
  | .help => "Show how the commands are used"
  | .completion _ => "Show how commands can be completed by a shell"

def ofName? (name : String) : Option Command := all.find? (·.name == name)

def sharedFlags : List Flag :=
  [.ofKind "config" none .text "path of a TOML configuration file",
    .ofKind "verbose" (some 'v') .switch "print errors with their stack trace",
    .ofKind "cc" none .text "C compiler command",
    .ofKind "cflags" none .list "extra compiler flags, comma separated",
    .ofKind "temp_dir" none .text "directory of the generated files",
    .ofKind "layout" none (.choice [Layout.rowMajor.name, Layout.columnMajor.name])
      "memory layout of the tensors",
    .ofKind "dtype" none (.choice [ElementType.float32.name, ElementType.float64.name])
      "data type of the elements",
    .ofKind "log_level" none .text "logging level (debug|info|warn|error)",
    .ofKind "fuse" none .switch "fuse the outermost loops of assignments",
    .ofKind "coalesce" none .switch "compute whole tensor assignments with a single loop",
    .ofKind "native" none .switch "enable the instruction sets of the host CPU",
    .ofKind "keep_files" none .switch "keep the generated files"]

/-- The flags that only one command has. -/
def ownFlags : Command → List Flag
  | .emit => [.ofKind "out" (some 'o') .text
      "directory where the C files are written instead of the standard output"]
  | .build => [.ofKind "jobs" (some 'j') .number "maximum number of kernels built concurrently"]
  | .run => [.ofKind "jobs" (some 'j') .number "maximum number of programs run concurrently"]
  | .completion (some _) =>
    [.ofKind "no-descriptions" none .switch "complete without the descriptions of the commands"]
  | _ => []

def helpFlag : Flag := .ofKind "help" (some 'h') .switch "show how the command is used"

def isDashed (arg : String) : Bool := arg.toList.head? == some '-'

/-- Whether the next argument is taken to be the value of this one. -/
def takesNext (arg : String) : Bool :=
  let fs : FlagSet := { flags := sharedFlags }
  let isSwitch (f : Option Flag) := (f.map (·.kind)) == some .switch
  match arg.toList with
  | '-' :: '-' :: name => !name.contains '=' && !isSwitch (fs.find? (String.ofList name))
  | ['-', c] => c.toNat < 0x80 && c != '=' && !isSwitch (fs.findLetter? c)
  | _ => false

/-- The arguments that are neither flags nor values of flags. A flag that takes the last argument
ends the search. -/
def words : List String → List String
  | [] => []
  | arg :: rest =>
    if arg = "--" then []
    else if takesNext arg then
      match rest with
      | _ :: next :: more => words (next :: more)
      | _ => []
    else if arg = "" ∨ isDashed arg then words rest
    else arg :: words rest

/-- The arguments without the one that names the command. -/
def withoutWord (word : String) : List String → List String
  | [] => []
  | arg :: rest =>
    if arg = "--" then arg :: rest
    else if takesNext arg then
      match rest with
      | [] => [arg]
      | value :: more => arg :: value :: withoutWord word more
    else if arg = word then rest
    else arg :: withoutWord word rest

/-- A text in lower case, in bytes. -/
def lowerBytes (s : String) : List UInt8 := Bytes.ofText (String.ofList (s.toList.map Text.lowerCase))

/-- Whether a command could have been meant: at most two bytes differ, or its name goes on from
what was given. The case does not matter. -/
def resembles (given : String) (c : Command) : Bool :=
  Text.editDistance (lowerBytes given) (lowerBytes c.name) ≤ 2
    || (lowerBytes given).isPrefixOf (lowerBytes c.name)

/-- The command within another one that its arguments ask for, with the other arguments. -/
def narrow : Command → List String → Command × List String
  | .completion none, args =>
    match (words args).head? with
    | none => (.completion none, args)
    | some word =>
      match Shell.ofName? word with
      | some shell => (.completion (some shell), withoutWord word args)
      | none => (.completion none, args)
  | c, args => (c, args)

/-- The command that arguments ask for, with the other arguments. Without a command there is none
to carry out. -/
def choose (args : List String) : Except UsageError (Option Command × List String) :=
  match words args with
  | [] => .ok (none, args)
  | word :: _ =>
    match ofName? word with
    | some c =>
      let (c, rest) := c.narrow (withoutWord word args)
      .ok (some c, rest)
    | none =>
      let similar := all.filter fun c => c != .help && resembles word c
      .error (.unknown word (similar.map name))

/-- The flags of a command, or of the program without a command. -/
def flagSet (c : Option Command) : FlagSet :=
  { flags := sharedFlags ++ (c.map ownFlags).getD [] ++ [helpFlag] }

/-- Checks the arguments of a command that are not flags. -/
def checkArgs (c : Command) (args : List String) : Except UsageError Unit :=
  match c with
  | .emit | .build | .run => if args.length < 1 then .error (.tooFew 1 args.length) else .ok ()
  | .inspect => if args.length ≠ 1 then .error (.wrongCount 1 args.length) else .ok ()
  | .completion (some _) => args.head?.elim (.ok ()) fun arg => .error (.unexpected arg c.name)
  | .help | .completion none => .ok ()

/-- Whether carrying out the command is to show how commands are used. -/
def showsHelp : Command → Bool
  | .help | .completion _ => true
  | _ => false

/-- The flags after the arguments of a command were read, and the command to carry out. There is
none where help is asked for. -/
def parse (c : Option Command) (args : List String) : FlagSet × Except UsageError (Option Command) :=
  let (fs, e) := (flagSet c).parse args
  match e, c with
  | some e, _ => (fs, .error (.flag e))
  | none, none => (fs, .ok none)
  | none, some c =>
    if fs.isOn helpFlag.name then (fs, .ok none)
    else (fs, (c.checkArgs fs.args).map fun _ => if c.showsHelp then none else some c)

end Command

end LoopNest
