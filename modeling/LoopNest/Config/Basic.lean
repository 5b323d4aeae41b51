import LoopNest.Compile
import LoopNest.Config.Level
import LoopNest.Kernel.Command

/-!
# Configuration

What the command line can be told by a file, by the environment and by its flags, in rising
precedence.
-/

namespace LoopNest

structure Config where
  /-- The compiler with arguments of its own. -/
  compiler : String := Kernel.defaultCompiler
  flags : List String := []
  tempDir : String := ""
  layout : String := Layout.rowMajor.name
  dtype : String := ElementType.float64.name
  fuse : Bool := false
  coalesce : Bool := false
  native : Bool := false
  keepFiles : Bool := false
  logLevel : String := "warn"
deriving DecidableEq, Repr, Inhabited

/-- How programs are compiled and built. -/
structure CompileOptions where
  emit : EmitOptions := {}
  fuse : Bool := false
  build : Kernel.BuildOptions := {}
  native : Bool := false
deriving Inhabited

/-- Why a configuration is refused. -/
inductive ConfigError where
  | noCompiler
  | layout (value : String)
  | dtype (value : String)
  | logLevel (value : String)
deriving DecidableEq, Repr, Inhabited

def ConfigError.message : ConfigError → String
  | .noCompiler => "no compiler specified"
  | .layout value =>
    s!"invalid layout {Text.quote value}: must be {Layout.rowMajor.name} or {Layout.columnMajor.name}"
  | .dtype value => s!"invalid data type {Text.quote value}: must be float32 or float64"
  | .logLevel value => s!"invalid log level {Text.quote value}"

namespace Config

/-- The layout; row-major when none is given. -/
def layoutOf (c : Config) : Except ConfigError Layout :=
  if c.layout = "" ∨ c.layout = Layout.rowMajor.name then .ok .rowMajor
  else if c.layout = Layout.columnMajor.name then .ok .columnMajor
  else .error (.layout c.layout)

/-- The element type; double precision when none is given. -/
def dtypeOf (c : Config) : Except ConfigError ElementType :=
  if c.dtype = "" ∨ c.dtype = ElementType.float64.name then .ok .float64
  else if c.dtype = ElementType.float32.name then .ok .float32
  else .error (.dtype c.dtype)

/-- The lowest level that is logged; warnings when none is given. -/
def level (c : Config) : Except ConfigError Level :=
  if c.logLevel = "" then .ok .warn
  else match Level.parse? c.logLevel with
    | some l => .ok l
    | none => .error (.logLevel c.logLevel)

/-- Checks the compiler, the layout, the element type and the level, in this order. -/
def validate (c : Config) : Except ConfigError Unit := do
  if Text.isBlankText c.compiler then .error .noCompiler
  else
    let _ ← c.layoutOf
    let _ ← c.dtypeOf
    let _ ← c.level
    .ok ()

def options (c : Config) : Except ConfigError CompileOptions := do
  let layout ← c.layoutOf
  let dtype ← c.dtypeOf
  return {
    emit := { layout, dtype, coalesce := c.coalesce }
    fuse := c.fuse
    build := { compiler := c.compiler, flags := c.flags, tempDir := c.tempDir, keepFiles := c.keepFiles }
    native := c.native }

/-- Variables of the environment with their values. -/
abbrev Environment := List (String × String)

/-- The value of a variable; a variable that is not set is empty. A text with a zero character ends
too early to be set at all. -/
def variableOf (env : Environment) (name : String) : String :=
  match env.lookup name with
  | some value => if value.contains '\x00' then "" else value
  | none => ""

/-- A text in place of another one if it is not empty. -/
def orElse (s default : String) : String := if s.isEmpty then default else s

/-- The configuration after the environment: a variable that is set and not empty replaces a
value, and further flags are added. -/
def applyEnvironment (env : Environment) (c : Config) : Config :=
  { c with
    compiler := orElse (variableOf env "TENSORC_CC") (orElse (variableOf env "CC") c.compiler)
    tempDir := orElse (variableOf env "TENSORC_TMPDIR") c.tempDir
    flags := c.flags ++ Text.fields (variableOf env "TENSORC_FLAGS")
    logLevel := orElse (variableOf env "TENSORC_LOG_LEVEL") c.logLevel }

end Config

end LoopNest
