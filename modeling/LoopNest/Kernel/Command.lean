import LoopNest.Host.Path
import LoopNest.Text.Lines

/-!
# Compiler commands
-/

namespace LoopNest.Kernel

/-- How kernels are built. -/
structure BuildOptions where
  compiler : String := ""
  /-- More arguments for the compiler. -/
  flags : List String := []
  /-- The directory of the generated files; when it is empty, the one of the system. -/
  tempDir : String := ""
  /-- Keep the generated files when a kernel is cleaned up. -/
  keepFiles : Bool := false
deriving DecidableEq, Repr, Inhabited

/-- The compiler when none is given. -/
def defaultCompiler : String := "cc"

/-- The arguments that every compilation has. -/
def baseFlags : List String := ["-O2", "-shared", "-fPIC", "-std=c99"]

def BuildOptions.command (opts : BuildOptions) (source library : Path) : List String :=
  Text.fields (if opts.compiler.isEmpty then defaultCompiler else opts.compiler)
    ++ baseFlags ++ opts.flags ++ ["-o", library.toText, source.toText]

def manifestPath (library : Path) : Path :=
  if library.isEmpty then library else library ++ (".manifest" : Path)

end LoopNest.Kernel
