import LoopNest.Host.Basic

/-!
# Files

Directories and files by the steps of their paths. A file holds bytes or a shared library. What is
above the working directory is there but not known.
-/

namespace LoopNest

structure LibraryFile where
  code : Compiler.SharedLibrary
  /-- The kernel that the library was made for, if it runs just that. -/
  kernel : Option C.Function := none
deriving Inhabited

inductive Content where
  | bytes (data : List UInt8)
  | library (file : LibraryFile)
deriving Inhabited

/-- Why a path cannot be used. -/
inductive PathError where
  | missing
  | notDirectory
  | isDirectory
  | notEmpty
  | tooLong
  | invalid
  | busy
deriving DecidableEq, Repr, Inhabited

def PathError.reason : PathError → String
  | .missing => "no such file or directory"
  | .notDirectory => "not a directory"
  | .isDirectory => "is a directory"
  | .notEmpty => "directory not empty"
  | .tooLong => "file name too long"
  | .invalid => "invalid argument"
  | .busy => "device or resource busy"

/-- The files and the directories below the working directory and below the root. -/
structure Files where
  files : List (List Path × Content) := []
  dirs : List (List Path) := []
deriving Inhabited

namespace Files

def stepLimit : Nat := 255

def pathLimit : Nat := 4095

/-- Whether there is a directory. The working directory, those above it and the root are always
there. -/
def hasDir (fs : Files) (steps : List Path) : Bool :=
  steps.all (· == Path.up) || steps == [Path.root] || fs.dirs.contains steps

def hasFile (fs : Files) (steps : List Path) : Bool := (fs.files.lookup steps).isSome

/-- One step further. Nothing is above the root. -/
def advance (place : List Path) (s : Path) : List Path :=
  if s ≠ Path.up then place ++ [s]
  else if place = [Path.root] then place
  else if place.all (· == Path.up) then place ++ [s]
  else place.dropLast

/-- Walks along the steps of a path; all but the last have to be directories. -/
def walk (fs : Files) (place : List Path) : List Path → Except PathError (List Path)
  | [] => .ok place
  | s :: rest =>
    let next := advance place s
    if stepLimit < s.size then .error .tooLong
    else if rest.isEmpty || fs.hasDir next then fs.walk next rest
    else if fs.hasFile next then .error .notDirectory
    else .error .missing

/-- Why a path has no meaning at all. -/
def malformed? (path : Path) : Option PathError :=
  if path.bytes.contains 0 then some .invalid
  else if path.isEmpty then some .missing
  else if pathLimit < path.size then some .tooLong
  else none

def start (path : Path) : List Path := if Path.isAbsolute path then [Path.root] else []

/-- The steps from a fixed directory that a path leads to. -/
def resolve (fs : Files) (path : Path) : Except PathError (List Path) := do
  match malformed? path with
  | some e => .error e
  | none =>
    let steps ← fs.walk (start path) (Path.steps path)
    if Path.namesDirectory path && fs.hasFile steps then .error .notDirectory else .ok steps

def content (fs : Files) (path : Path) : Except PathError Content := do
  let steps ← fs.resolve path
  if fs.hasDir steps then .error .isDirectory
  else match fs.files.lookup steps with
    | some c => .ok c
    | none => .error .missing

/-- The files after writing one. A path with a slash at its end does not name a new file. -/
def write (fs : Files) (path : Path) (c : Content) : Except PathError Files := do
  let steps ← fs.resolve path
  if fs.hasDir steps then .error .isDirectory
  else if fs.hasFile steps then
    .ok { fs with files := fs.files.map fun f => if f.1 = steps then (steps, c) else f }
  else if (Path.lastPiece path).isEmpty then .error .isDirectory
  else if Path.namesDirectory path then .error .missing
  else .ok { fs with files := fs.files ++ [(steps, c)] }

def isOccupied (fs : Files) (steps : List Path) : Bool :=
  let inside (p : List Path) := steps.isPrefixOf p && p ≠ steps
  fs.files.any (inside ·.1) || fs.dirs.any inside

/-- The files after removing one, or an empty directory. The last step of the path has to be a
name. -/
def remove (fs : Files) (path : Path) : Except PathError Files := do
  let steps ← fs.resolve path
  let last := ((Path.pieces path).filter fun s => !s.isEmpty).getLastD Path.root
  if fs.hasFile steps then .ok { fs with files := fs.files.filter (·.1 ≠ steps) }
  else if !fs.hasDir steps then .error .missing
  else if last = Path.here then .error .invalid
  else if last = Path.up then .error .notEmpty
  else if last = Path.root then .error .busy
  else if fs.isOccupied steps then .error .notEmpty
  else .ok { fs with dirs := fs.dirs.filter (· ≠ steps) }

/-- Makes the directories along some steps, up to the first that cannot be made. -/
def makeDirsFrom (fs : Files) (place : List Path) : List Path → Files
  | [] => fs
  | s :: rest =>
    let next := advance place s
    if fs.hasDir next then fs.makeDirsFrom next rest
    else if fs.hasFile next || stepLimit < s.size then fs
    else makeDirsFrom { fs with dirs := fs.dirs ++ [next] } next rest

/-- Makes a directory and those on the way to it, as far as they are missing. -/
def makeDirs (fs : Files) (dir : Path) : Files :=
  if (malformed? dir).isSome then fs else fs.makeDirsFrom (start dir) (Path.steps dir)

/-- The files after writing one whose directory is made if it is missing. What cannot be written is
left out. -/
def put (fs : Files) (path : Path) (data : List UInt8) : Files :=
  let fs := fs.makeDirs (Path.dir path)
  ((fs.write path (.bytes data)).toOption).getD fs

def names (fs : Files) : List Path :=
  (fs.files.map (·.1) ++ fs.dirs).filterMap fun
    | [s] => some s
    | _ => none

def renderSteps (steps : List Path) : String :=
  match steps with
  | [] => ""
  | s :: rest =>
    if s = Path.root then "/" ++ (Path.joinSteps rest).toText else (Path.joinSteps steps).toText

/-- A machine without files of its own: its usual directories, and the file that is always
empty. -/
def bare : Files where
  files := [([Path.root, "dev", "null"], .bytes [])]
  dirs := ["bin", "dev", "etc", "home", "opt", "root", "tmp", "usr", "var"].map fun (name : String) =>
    [Path.root, RawText.ofText name]

end Files

end LoopNest
