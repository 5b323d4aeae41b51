import LoopNest.Host.Basic
import LoopNest.Kernel.Command
import LoopNest.Kernel.Manifest

/-!
# Kernels

A kernel is a shared library built from code. It is loaded before it is called, and its files are
removed when it is cleaned up. Its manifest can be written to a file next to the library, so that
the kernel can be opened again as long as its source has not changed.
-/

namespace LoopNest

structure Kernel where
  manifest : Manifest
  source : RawText := ""
  options : Kernel.BuildOptions := {}
  /-- The entry point, while the library is loaded. -/
  entry : Option Entry := none
deriving Inhabited

namespace Kernel

variable {ω : Type}

/-- The name of the function, in words. -/
def funcName (k : Kernel) : String := k.manifest.funcName.toText

/-- The path of the library, in words. -/
def libraryName (k : Kernel) : String := k.manifest.library.toText

def formals (k : Kernel) : List Manifest.Formal := k.manifest.arguments

def dtype (k : Kernel) : ElementType := k.manifest.dtype

def isLoaded (k : Kernel) : Bool := k.entry.isSome

/-- The position of an argument; the last one of that name counts. -/
def position (k : Kernel) (name : String) : Except Diagnostic Nat :=
  match k.formals.reverse.findIdx? (·.name == RawText.ofText name) with
  | some i => .ok (k.formals.length - 1 - i)
  | none => .error (.context s!"{name} is not an argument of {k.funcName}" .unknownArgument)

def firstPosition? (k : Kernel) (name : String) : Option Nat :=
  k.formals.findIdx? (·.name == RawText.ofText name)

/-- Opens the library and finds the entry point, unless that is done. -/
def load (host : Host ω) (k : Kernel) : Action ω Kernel := do
  if k.isLoaded then return k
  else
    let f ← Action.query (host.load k.manifest.library k.manifest.entry) fun
      | .library reason => .load k.libraryName reason
      | .entry reason => .missingSymbol k.manifest.entry.toText k.libraryName reason
    Action.record .debug "kernel loaded" [("func", k.funcName), ("library", k.libraryName)]
    return { k with entry := some f }

/-- Closes the library, with the error of doing so if there is one. -/
def unload (host : Host ω) (k : Kernel) : Action ω (Kernel × Option Diagnostic) := do
  if !k.isLoaded then return (k, none)
  else
    let e ← Action.attempt (Action.apply (host.close k.manifest.library) fun reason =>
      .context s!"cannot unload {k.libraryName}" (.cause reason))
    Action.record .debug "kernel unloaded" [("func", k.funcName)]
    return ({ k with entry := none }, e)

/-- Removes files, with the errors of doing so. Empty paths are passed over. -/
def removeAll (host : Host ω) : List Path → Action ω (List Diagnostic)
  | [] => return []
  | path :: rest => do
    let e ← if path.isEmpty then pure none
      else Action.attempt (Action.apply (host.remove path) fun reason => .cause reason)
    return e.toList ++ (← removeAll host rest)

/-- Unloads a kernel and removes its files unless they are to be kept, with all errors. -/
def clean (host : Host ω) (k : Kernel) : Action ω (Kernel × Option Diagnostic) := do
  let (k, e) ← k.unload host
  if k.options.keepFiles then return (k, e)
  else
    let m := k.manifest
    let es ← removeAll host [m.source, m.library, manifestPath m.library]
    return ({ k with manifest := { m with source := "", library := "" } },
      Diagnostic.combine (e.toList ++ es))

/-- The directory of the generated files. -/
def buildDir (host : Host ω) (opts : BuildOptions) : String :=
  if opts.tempDir.isEmpty then host.tempDir else opts.tempDir

/-- Writes the source of a kernel to a file and compiles it. -/
def build (host : Host ω) (code : C.Code) (opts : BuildOptions) : Action ω Kernel := do
  let base := Path.join (buildDir host opts) (host.baseName (← Action.next))
  let sourcePath := base ++ (".c" : Path)
  let libraryPath := base ++ (".so" : Path)
  let k : Kernel := { manifest := .ofCode code sourcePath libraryPath, source := code.source
                      options := opts }
  Action.apply (host.write sourcePath (Bytes.ofText code.source)) fun reason =>
    .context "cannot write kernel source" (.cause reason)
  let command := opts.command sourcePath libraryPath
  Action.record .debug "compiling kernel"
    [("func", code.funcName), ("command", " ".intercalate command)]
  match host.compile command code libraryPath (← get).world with
  | .ok w =>
    modify fun s => { s with world := w }
    Action.record .debug "kernel compiled"
      [("func", code.funcName), ("library", k.libraryName), ("duration", "D")]
    return k
  | .error e =>
    Action.record .error "kernel compilation failed" [("func", code.funcName), ("error", e.reason)]
    let failure := Diagnostic.build command e.output code.source e.reason
    let (_, more) ← k.clean host
    Action.fail (more.elim failure (Diagnostic.append (some failure)))

/-- Writes the manifest of a kernel next to its library and gives its path. -/
def saveManifest (host : Host ω) (k : Kernel) : Action ω Path := do
  let path := manifestPath k.manifest.library
  Action.apply (host.write path k.manifest.pack.encode) fun reason =>
    .context "cannot write manifest" (.cause reason)
  return path

/-- The error for a source that is not the one that a manifest describes. -/
def changedSource (m : Manifest) (digest : String) : Diagnostic :=
  .cause (s!"source {m.source.toText} has changed since {m.library.toText} was built: "
    ++ s!"got digest {digest} but manifest has {m.digest.toText}")

/-- The kernel that a manifest describes. Its source must still have the digest of the manifest. -/
def openManifest (host : Host ω) (path : Path) (opts : BuildOptions) : Action ω Kernel := do
  let data ← Action.query (host.read path) fun problem =>
    .context "cannot read manifest" (.cause problem.reason)
  match (Pack.read? data).bind Manifest.unpack? with
  | none => Action.fail (.undecodable s!"cannot decode manifest {path.toText}")
  | some m =>
    let source ← Action.query (host.read m.source) fun problem =>
      .context s!"cannot read the source of {m.funcName.toText}" (.cause problem.reason)
    let digest := digestBytes source
    if RawText.ofText digest ≠ m.digest then Action.fail (changedSource m digest)
    else return { manifest := m, source := ⟨source⟩, options := opts }

end Kernel

end LoopNest
