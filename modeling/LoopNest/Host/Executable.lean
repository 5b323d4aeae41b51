/-!
# Programs

The programs of a host that a command can name. In the end a command runs the C compiler or exits
with a status. Some programs run the command that follows their own options, and a shell runs a
script.
-/

namespace LoopNest

/-- What a command comes down to. -/
inductive Job where
  /-- The compiler runs with arguments; the flag tells whether sources are in its other language. -/
  | compile (isPlus : Bool) (args : List String)
  | exit (status : Nat)
deriving DecidableEq, Repr, Inhabited

namespace Job

/-- The status of a command that misuses a program that runs another one. -/
def misused : Job := .exit 125

/-- The status of a command whose program is not there. -/
def missing : Job := .exit 127

end Job

/-- A program of the host. -/
inductive Executable where
  /-- The C compiler, with arguments that it always has. -/
  | compiler (isPlus : Bool) (args : List String)
  /-- The C compiler for one version of the language. -/
  | strictCompiler (standards : List String)
  /-- Ends with a status, whatever its arguments are. -/
  | idle (status : Nat)
  /-- Ends with a status, since it does not know the arguments of a compiler. -/
  | refusing (status : Nat)
  | environment
  | priority
  /-- Runs a command that goes on when the session ends. -/
  | detached
  | timed
  | session
  | buffered
  /-- Runs a command with the words of an empty input. -/
  | collected
  /-- Runs a script; a script that is not there gives the status. -/
  | shell (status : Nat)
deriving DecidableEq, Repr, Inhabited

namespace Executable

/-- Programs that do not know the arguments of a compiler, by their status. -/
def refusals : List (Nat × List String) :=
  [(1, ["cat", "cp", "mv", "rm", "touch", "mkdir", "rmdir", "ln", "head", "tail", "wc", "uniq", "cut",
      "tr", "tee", "sleep", "date", "uname", "pwd", "whoami", "id", "basename", "dirname", "seq",
      "yes", "sed", "find", "ld", "as", "ar", "nm", "objdump", "tac", "nl", "od", "md5sum",
      "sha256sum", "base64", "chmod", "chown", "dd", "df", "du", "stat", "factor", "nproc", "mktemp",
      "realpath", "readlink", "install"]),
    (2, ["ls", "sort", "expr", "test", "[", "grep", "make", "diff", "cmp", "printenv", "go", "tty"])]

def table : List (String × Executable) :=
  [("cc", .compiler false []), ("gcc", .compiler false []),
    ("x86_64-linux-gnu-gcc", .compiler false []), ("gcc-12", .compiler false []),
    ("x86_64-linux-gnu-gcc-12", .compiler false []), ("cpp", .compiler false ["-E"]),
    ("c99", .strictCompiler ["c99", "iso9899:1999"]), ("c89", .strictCompiler ["c89", "iso9899:1990"]),
    ("g++", .compiler true []), ("c++", .compiler true []), ("x86_64-linux-gnu-g++", .compiler true []),
    ("g++-12", .compiler true []), ("true", .idle 0), ("echo", .idle 0), ("printf", .idle 0),
    ("false", .idle 1), ("env", .environment), ("nice", .priority), ("nohup", .detached),
    ("timeout", .timed), ("setsid", .session), ("stdbuf", .buffered), ("xargs", .collected),
    ("sh", .shell 2), ("dash", .shell 2), ("bash", .shell 127)]
    ++ refusals.flatMap fun (status, names) => names.map fun name => (name, .refusing status)

def dirs : List String := ["/usr/bin", "/bin"]

def ofPath? (path : String) : Option Executable :=
  dirs.findSome? fun dir =>
    if path.startsWith (dir ++ "/") then
      table.lookup (String.ofList (path.toList.drop (dir.length + 1)))
    else none

/-- Finds a program by its name in some directories, or by its path. -/
def find? (searched : List String) (command : String) : Option Executable :=
  if command.contains '/' then ofPath? command
  else if dirs.any searched.contains then table.lookup command
  else none

end Executable

/-- The part of the environment that decides what a command does: where programs are looked for. -/
structure Environment where
  searched : Option (List String) := some Executable.dirs
deriving DecidableEq, Repr, Inhabited

namespace Environment

/-- The directories in which programs are looked for. -/
def dirs (e : Environment) : List String := e.searched.getD Executable.dirs

def assign (e : Environment) (name value : String) : Environment :=
  if name = "PATH" then { e with searched := some (value.splitOn ":") } else e

def unset (e : Environment) (name : String) : Environment :=
  if name = "PATH" then { e with searched := none } else e

/-- Whether the compiler finds the programs that it runs. -/
def hasTools (e : Environment) : Bool := e.searched.any fun dirs => Executable.dirs.any dirs.contains

end Environment

/-! ## Options of the programs that run a command -/

namespace Job

/-- The rest of a word after its first characters, if there is one. -/
def valueOf? (front word : String) : Option String :=
  if word.startsWith front && front.length < word.length then
    some (String.ofList (word.toList.drop front.length))
  else none

def isOption (word : String) : Bool := word.startsWith "-" && word ≠ "-"

/-- Whether a text is a whole number, which may have a sign. -/
def isInteger (s : String) : Bool :=
  let digits := match s.toList with
    | '-' :: cs | '+' :: cs => cs
    | cs => cs
  !digits.isEmpty && digits.all Char.isDigit

/-- Whether a text is a length of time. -/
def isDuration (s : String) : Bool :=
  let number := if s.toList.getLast?.any "smhd".toList.contains then s.toList.dropLast else s.toList
  let parts := (String.ofList number).splitOn "."
  number = "inf".toList || (parts.length ≤ 2 && number.any Char.isDigit
    && parts.all fun part => part.toList.all Char.isDigit)

/-- Passes over options with no value and options with a value, as given, up to the command. The
rest is not there if there is another option. -/
def command? (plain valued : List String) : List String → Option (List String)
  | [] => some []
  | "--" :: rest => some rest
  | word :: rest =>
    if !isOption word then some (word :: rest)
    else if plain.contains word then command? plain valued rest
    else if valued.contains word then
      match rest with
      | [] => none
      | _ :: rest => command? plain valued rest
    else if valued.any fun front =>
        (valueOf? (if front.startsWith "--" then front ++ "=" else front) word).isSome then
      command? plain valued rest
    else none

/-- Whether a command only asks a program about itself. -/
def isQuestion : List String → Bool
  | word :: _ => word = "--help" || word = "--version"
  | [] => false

/-- Reads assignments, and gives the command that follows. -/
def assigned (e : Environment) : List String → Environment × List String
  | [] => (e, [])
  | word :: rest =>
    match word.toList.dropWhile (· ≠ '=') with
    | [] => (e, word :: rest)
    | _ :: value =>
      assigned (e.assign (String.ofList (word.toList.takeWhile (· ≠ '='))) (String.ofList value)) rest

/-- Reads the options of a program that changes the environment, and gives the command that
follows. -/
def inEnvironment? (e : Environment) : List String → Option (Environment × List String)
  | [] => some (e, [])
  | "-" :: rest => some (assigned { e with searched := none } rest)
  | "--" :: rest => some (assigned e rest)
  | "-i" :: rest | "--ignore-environment" :: rest => inEnvironment? { e with searched := none } rest
  | "-v" :: rest | "--debug" :: rest => inEnvironment? e rest
  | "-u" :: name :: rest => if name.contains '=' then none else inEnvironment? (e.unset name) rest
  | "-C" :: "." :: rest => inEnvironment? e rest
  | "-S" :: word :: rest => inEnvironment? e (word :: rest)
  | word :: rest =>
    if !isOption word then some (assigned e (word :: rest))
    else match (valueOf? "-u" word).orElse fun _ => valueOf? "--unset=" word with
      | some name => inEnvironment? (e.unset name) rest
      | none => none

def prioritized? : List String → Option (List String)
  | "-n" :: n :: rest | "--adjustment" :: n :: rest => if isInteger n then prioritized? rest else none
  | word :: rest =>
    if !isOption word then some (word :: rest)
    else match (valueOf? "-n" word).orElse fun _ => (valueOf? "--adjustment=" word).orElse fun _ =>
        valueOf? "-" word with
      | some n => if isInteger n then prioritized? rest else none
      | none => none
  | [] => some []

/-- Whether a word says how something is buffered. -/
def isBufferOption (word : String) : Bool :=
  let isMode (s : String) : Bool := s = "L" || (!s.isEmpty && s.toList.all Char.isDigit)
  let isPlainMode (s : String) : Bool := isMode s && s ≠ "L"
  ["-o", "-e", "--output=", "--error="].any (fun front => (valueOf? front word).any isMode)
    || ["-i", "--input="].any fun front => (valueOf? front word).any isPlainMode

/-- The status of a shell that runs one word. -/
def scriptWord (e : Environment) (word : String) : Nat :=
  let builtins := ["", ":", "true", "exit", "echo", "cd", "exec", "set", "pwd", "shift", "wait", "env",
    "date", "ls", "cat", "export", "unset", "umask", "times", "trap", "hash", "jobs", "alias"]
  let name := word.toList.takeWhile (· ≠ '=')
  let isAssignment := name.length < word.length && !name.isEmpty
    && name.all (fun c => c.isAlphanum || c = '_') && !(name.head?.any Char.isDigit)
  if builtins.contains word || word.startsWith "#" || isAssignment then 0
  else if word = "false" || word = "test" then 1
  else match Executable.find? e.dirs word with
    | some (.idle status) => status
    | some (.compiler ..) | some (.strictCompiler _) => 1
    | some .environment => 0
    | some _ => if word = "[" then 2 else 1
    | none => 127

/-- The status of a script: words that are separated by semicolons, or by marks for the commands
that run only after a success or a failure. -/
def script (e : Environment) (text : String) : Nat :=
  let count (c : Char) : Nat := text.toList.count c
  if count '\'' % 2 = 1 || count '"' % 2 = 1 || text.contains '(' || text.contains ')'
      || ["\x7b", "\x7d", "if", "while", "for", "case", "until", "then", "do", "fi", "done"].contains text then 2
  else
    (text.splitOn ";").foldl (fun _ part =>
      (part.splitOn "||").foldl (fun before choice =>
        if before = some 0 then before
        else (choice.splitOn "&&").foldl (fun before word =>
          if before.any (· ≠ 0) then before else some (scriptWord e word)) none) none |>.getD 0) 0

/-- What a shell does with its arguments. The flag tells whether an option said that a script
follows. -/
def shell (e : Environment) (missingStatus : Nat) (isScript : Bool) : List String → Nat
  | [] => 0
  | word :: rest =>
    if word.startsWith "-" || word.startsWith "+" then
      let letters := word.toList.drop 1
      if letters.all "abCefhilmnuvxc".toList.contains then
        shell e missingStatus (isScript || letters.contains 'c') rest
      else 2
    else if isScript then script e word
    else missingStatus

/-- What a command comes down to. The fuel bounds the number of programs that run each other. -/
def ofWords (fuel : Nat) (e : Environment) : List String → Job
  | [] => .exit 0
  | word :: args =>
    match fuel, Executable.find? e.dirs word with
    | 0, _ | _, none => missing
    | fuel + 1, some program =>
      let inner (rest : Option (List String)) : Job :=
        match rest with
        | none | some [] => misused
        | some rest => ofWords fuel e rest
      match program with
      | .compiler isPlus always => if e.hasTools then .compile isPlus (always ++ args) else .exit 1
      | .strictCompiler standards =>
        let isOther (arg : String) : Bool := arg = "-ansi" || (valueOf? "-std=" arg).any fun name =>
          !standards.contains name
        if e.hasTools && !args.any isOther then .compile false args else .exit 1
      | .idle status => .exit status
      | .refusing status => .exit (if isQuestion args then 0 else status)
      | .environment =>
        if isQuestion args then .exit 0
        else match inEnvironment? e args with
          | none => misused
          | some (_, []) => .exit 0
          | some (e, rest) => ofWords fuel e rest
      | .priority => if isQuestion args then .exit 0 else inner (prioritized? args)
      | .detached => if isQuestion args then .exit 0 else inner (command? [] [] args)
      | .timed =>
        let options := command? ["--foreground", "--preserve-status", "-v", "--verbose"]
          ["-k", "--kill-after", "-s", "--signal"] args
        if isQuestion args then .exit 0
        else match options with
          | some (duration :: rest) => if isDuration duration then inner (some rest) else misused
          | _ => misused
      | .session =>
        match command? ["-w", "--wait", "-c", "--ctty"] [] args with
        | some (word :: rest) => ofWords fuel e (word :: rest)
        | _ => .exit 1
      | .buffered =>
        if isQuestion args then .exit 0
        else
          let rest := args.dropWhile isBufferOption
          if rest.length = args.length || rest.head?.any isOption then misused else inner (some rest)
      | .collected =>
        match command? ["-t", "-0", "-x"] ["-n", "-P", "-L", "-s", "-I", "-d"] args with
        | none => .exit 1
        | some [] => .exit 0
        | some rest =>
          match ofWords fuel e rest with
          | .exit status => .exit (if status = 0 || status = 127 then status else 123)
          | job => job
      | .shell status => .exit (shell e status false args)

end Job

end LoopNest
