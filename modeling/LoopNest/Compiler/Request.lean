import LoopNest.Compiler.Dialect
import LoopNest.Compiler.Options

/-!
# Compiler requests

What the arguments of the C compiler ask for. An argument that it does not know, or a file that is
not there, makes it fail.
-/

namespace LoopNest.Compiler

/-- What a compiler makes of a source. -/
inductive Product where
  | library
  /-- A file that cannot be loaded. -/
  | other
  /-- No file, and the source is read. -/
  | check
  /-- No file, and the source is not read. -/
  | nothing
deriving DecidableEq, Repr, Inhabited

/-- What an argument says about a warning. -/
inductive WarningMode where
  | on
  | off
  | error
  /-- The warning is no error. -/
  | mild
deriving DecidableEq, Repr, Inhabited

/-- What the arguments of a compiler ask for. -/
structure Request where
  product : Product := .library
  dialect : Dialect := {}
  /-- The source is in the other language of the compiler. -/
  isPlus : Bool := false
  /-- Directives that stand in front of the source. -/
  definitions : List String := []
  /-- Headers that are read before the source. -/
  inclusions : List String := []
  /-- Names are hidden unless a declaration lets them be seen. -/
  isHidden : Bool := false
  level : String := "0"
  /-- Options of code generation, last one first, and whether they are on. -/
  features : List (String × Bool) := []
  /-- Options of the machine, last one first, and whether they are on. -/
  machine : List (String × Bool) := []
  libraries : List String := []
  /-- All names have to be found when the library is made. -/
  isClosed : Bool := false
  /-- What is said about warnings, last one first. -/
  warnings : List (String × WarningMode) := []
  isStrict : Bool := false
  /-- There are no warnings. -/
  isSilent : Bool := false
  /-- What the language forbids is an error. -/
  isPedantic : Bool := false
deriving DecidableEq, Repr, Inhabited

namespace Request

/-! ## Parts of arguments -/

/-- The rest of an argument after its first characters, if it starts with them. -/
def after? (front : String) (arg : String) : Option String :=
  if arg.startsWith front then some (String.ofList (arg.toList.drop front.length)) else none

/-- The name and the value of an argument with a sign between them. -/
def split (arg : String) : String × Option String :=
  match arg.toList.dropWhile (· ≠ '=') with
  | [] => (arg, none)
  | _ :: value => (String.ofList (arg.toList.takeWhile (· ≠ '=')), some (String.ofList value))

def isNumber (s : String) : Bool := !s.isEmpty && s.toList.all Char.isDigit

def hasValue (settings numbers texts : List String) (option : String) : Bool :=
  settings.contains option || match split option with
    | (name, some value) =>
      (numbers.contains name && isNumber value) || (texts.contains name && !value.isEmpty)
    | _ => false

def switched (option : String) : String × Bool :=
  match after? "no-" option with
  | some name => (name, false)
  | none => (option, true)

/-- The machines that code can be made for. -/
def machines : List String := Options.words
  ("native x86-64 nocona core2 nehalem westmere sandybridge ivybridge haswell broadwell skylake " ++
   "skylake-avx512 cannonlake icelake-client icelake-server cascadelake cooperlake tigerlake " ++
   "sapphirerapids alderlake rocketlake bonnell silvermont goldmont goldmont-plus tremont atom " ++
   "slm corei7 corei7-avx core-avx-i core-avx2 knl knm k8 opteron athlon64 athlon-fx k8-sse3 " ++
   "opteron-sse3 athlon64-sse3 amdfam10 barcelona bdver1 bdver2 bdver3 bdver4 znver1 znver2 " ++
   "znver3 znver4 btver1 btver2 eden-x2 eden-x4 nano nano-1000 nano-2000 nano-3000 nano-x2 nano-x4")

/-- The levels of the machine that code can be made for. -/
def machineLevels : List String := ["x86-64-v2", "x86-64-v3", "x86-64-v4"]

/-- The machines that come with fewer instructions for fractions. -/
def oldMachines : List String := Options.words
  ("x86-64 nocona core2 bonnell atom k8 opteron athlon64 athlon-fx k8-sse3 opteron-sse3 " ++
   "athlon64-sse3 amdfam10 barcelona btver1 eden-x2 nano nano-1000 nano-2000 nano-x2")

/-- The machines that cannot multiply and add in one step, besides the old ones. -/
def separateMachines : List String := Options.words
  ("x86-64-v2 nehalem westmere sandybridge ivybridge silvermont goldmont goldmont-plus tremont slm " ++
   "corei7 corei7-avx core-avx-i bdver1 btver2 eden-x4 nano-3000 nano-x4")

def knownLibraries : List String := Options.words
  ("m c dl pthread rt util gcc gcc_s gcc_eh stdc++ supc++ crypt resolv anl atomic gomp itm " ++
   "quadmath ssp_nonshared mvec g nsl BrokenLocale thread_db gcov ubsan backtrace c_nonshared")

/-- Libraries that need the mathematics library themselves. -/
def mathematical : List String := ["m", "stdc++", "quadmath", "ubsan", "mvec"]

def linkerOptions : List String := Options.words
  ("--no-undefined --as-needed --no-as-needed --build-id --build-id=none --build-id=sha1 " ++
   "--build-id=md5 --build-id=uuid -O -O0 -O1 -O2 -O3 -s --strip-all -S --strip-debug " ++
   "--gc-sections --no-gc-sections -Bsymbolic -Bsymbolic-functions --export-dynamic -E " ++
   "--hash-style=gnu --hash-style=both --hash-style=sysv --enable-new-dtags --disable-new-dtags " ++
   "--sort-common -t --trace -v --verbose --stats --print-map -M --no-allow-shlib-undefined " ++
   "--allow-shlib-undefined -x -X --discard-all --discard-locals --no-whole-archive -Bdynamic " ++
   "--warn-common --fatal-warnings --no-fatal-warnings --relax --no-relax --eh-frame-hdr " ++
   "--no-eh-frame-hdr --demangle --no-demangle -shared -Bshareable --cref --no-define-common " ++
   "--print-gc-sections --no-warnings --warn-once --no-warn-mismatch --start-group --end-group " ++
   "--no-export-dynamic --push-state --pop-state --copy-dt-needed-entries " ++
   "--no-copy-dt-needed-entries --unresolved-symbols=ignore-all --emit-relocs -q -zdefs -znow " ++
   "-zrelro -zlazy -znodelete -zorigin -znoexecstack -znorelro -ztext -zcombreloc")

/-- Options of the linker with a value behind a comma. -/
def linkerPairs : List String := Options.words
  ("-rpath --rpath -R -soname --soname -h -z -u --undefined -e --entry -L --library-path " ++
   "-rpath-link --defsym -Map --dynamic-linker -I -y --sort-section -m -init -fini -Ttext")

/-! ## Warnings -/

/-- Warnings that stand for several ones. -/
def warningGroups : List (String × List String) :=
  [("all", ["implicit-int", "implicit-function-declaration", "return-type", "unused-variable",
      "unused-function"]),
    ("extra", []), ("unused", ["unused-variable", "unused-function"]),
    ("implicit", ["implicit-int", "implicit-function-declaration"]),
    ("conversion", ["float-conversion"])]

/-- Warnings that are on if nothing is said about them. -/
def usual : List String :=
  ["incompatible-pointer-types", "discarded-qualifiers", "int-conversion", "div-by-zero",
    "compare-distinct-pointer-types", "implicit-int", "implicit-function-declaration", "overflow",
    "return-type", "other"]

def forbidden : List String :=
  ["incompatible-pointer-types", "discarded-qualifiers", "int-conversion", "implicit-int",
    "compare-distinct-pointer-types", "implicit-function-declaration", "return-type", "other",
    "pedantic"]

/-- Whether a warning or a group is turned on by its name. -/
def isNamed (r : Request) (w : String) : Bool :=
  (r.warnings.find? fun (name, mode) => name = w && mode ≠ .mild).any (·.2 ≠ .off)

/-- What is said about a warning by its name, else by a group. Parameters that are not used are
only warned of if two groups are on. -/
def modeOf (r : Request) (w : String) (among : List WarningMode) : Option WarningMode :=
  let rules := r.warnings.filter fun (_, mode) => among.contains mode
  let isGroup (name : String) : Bool :=
    ((warningGroups.lookup name).getD []).contains w
      || (w = "unused-parameter" && name = "extra" && (r.isNamed "all" || r.isNamed "unused"))
  ((rules.find? (·.1 = w)).orElse fun _ => rules.find? (isGroup ·.1)).map (·.2)

def isFatal (r : Request) (w : String) : Bool :=
  let isOn := match r.modeOf w [.on, .off, .error] with
    | some mode => mode ≠ .off
    | none => usual.contains w
  let isError := match r.modeOf w [.error, .mild] with
    | some mode => mode = .error
    | none => r.isStrict
  (isOn && isError && !r.isSilent) || (r.isPedantic && forbidden.contains w)

/-- A request with one more word on a warning. There is none if no such warning is known. -/
def warning? (r : Request) (name : String) (mode : WarningMode) : Option Request :=
  let isKnown := Options.warningNames.contains name || (warningGroups.lookup name).isSome
    || hasValue Options.warningSettings Options.warningNumbers [] name
  if isKnown then some { r with warnings := ((split name).1, mode) :: r.warnings } else none

/-! ## Kinds of arguments -/

def warnings? (r : Request) (option : String) : Option Request :=
  match option, after? "error=" option, after? "no-error=" option, after? "no-" option with
  | "", _, _, _ => r.warning? "extra" .on
  | "error", _, _, _ => some { r with isStrict := true }
  | "fatal-errors", _, _, _ => some r
  | "error-implicit-function-declaration", _, _, _ =>
    r.warning? "implicit-function-declaration" .error
  | "no-error", _, _, _ => some { r with isStrict := false }
  | _, some name, _, _ => r.warning? name .error
  | _, _, some name, _ => r.warning? name .mild
  | _, _, _, some name => some { r with warnings := (name, .off) :: r.warnings }
  | _, _, _, _ => r.warning? option .on

/-- Reads an option of code generation. -/
def feature? (r : Request) (option : String) : Option Request :=
  let (name, isOn) := switched option
  if Options.features.contains name || (isOn && Options.onlyFeatures.contains name)
      || (!isOn && Options.offFeatures.contains name) then
    some { r with features := (name, isOn) :: r.features }
  else match option with
    | "whole-program" => some { r with isHidden := true }
    | "visibility=hidden" | "visibility=internal" => some { r with isHidden := true }
    | "visibility=default" | "visibility=protected" => some { r with isHidden := false }
    | "syntax-only" => some { r with product := .check }
    | _ =>
      let isMap := ["debug-prefix-map=", "file-prefix-map=", "macro-prefix-map="].any fun front =>
        (after? front option).any fun value => value.contains '='
      let isBuiltin := ((after? "builtin-" name).any fun f => !f.isEmpty)
      let isDump := (after? "dump-" option).any fun kind =>
        ["tree-", "rtl-", "ipa-"].any fun front => kind.startsWith front
      if isMap || isBuiltin || isDump
          || hasValue Options.settings Options.numberSettings Options.textSettings option then some r
      else none

def machine? (r : Request) (option : String) : Option Request :=
  let (name, isOn) := switched option
  if Options.machineFeatures.contains name || (isOn && Options.onlyMachineFeatures.contains name) then
    some { r with machine := (name, isOn) :: r.machine }
  else match split option with
    | ("arch", some name) =>
      if machines.contains name || machineLevels.contains name then
        some { r with machine := ("arch=" ++ name, true) :: r.machine }
      else none
    | ("tune", some name) =>
      if ["generic", "intel"].contains name || machines.contains name then some r else none
    | _ =>
      if hasValue Options.machineSettings Options.machineNumbers Options.machineTexts option then some r
      else none

def linker? (r : Request) : List String → Option Request
  | [] => some r
  | "-z" :: value :: rest => linker? { r with isClosed := r.isClosed || value = "defs" } rest
  | arg :: rest =>
    if arg = "--no-undefined" || arg = "-zdefs" then linker? { r with isClosed := true } rest
    else if linkerOptions.contains arg || linkerPairs.any (fun p => arg.startsWith (p ++ "=")) then
      linker? r rest
    else if linkerPairs.contains arg then
      match rest with
      | [] => some r
      | _ :: rest => linker? r rest
    else match after? "-l" arg with
      | some name =>
        if knownLibraries.contains name then linker? { r with libraries := name :: r.libraries } rest
        else none
      | none => if arg.startsWith "-L" then linker? r rest else none

/-- Reads a version of the language. Those of the other language are passed over. -/
def standard? (r : Request) (name : String) : Option Request :=
  match Dialect.ofName? name with
  | some d => some { r with dialect := { d with hasHeaders := r.dialect.hasHeaders } }
  | none =>
    let others := Options.words
      ("c++98 c++03 c++0x c++11 c++1y c++14 c++1z c++17 c++2a c++20 c++2b c++23 gnu++98 gnu++03 " ++
       "gnu++0x gnu++11 gnu++1y gnu++14 gnu++1z gnu++17 gnu++2a gnu++20 gnu++2b gnu++23 f95 f2003 " ++
       "f2008 f2008ts f2018 gnu legacy")
    if others.contains name then some r else none

def language? (r : Request) : String → Option Request
  | "c" | "none" => some { r with isPlus := false }
  | "c++" => some { r with isPlus := true }
  | "c-header" | "c++-header" => some { r with product := .other }
  | _ => none

def parameter? (r : Request) (option : String) : Option Request :=
  match split option with
  | (name, some value) => if Options.parameters.contains name && isNumber value then some r else none
  | _ => none

/-- The directive of a definition, which stands for one unless it is given a text. -/
def defining (s : String) : String :=
  let (name, text) := split s
  "#define " ++ name ++ " " ++ text.getD "1"

def define (r : Request) (s : String) : Request :=
  { r with definitions := r.definitions ++ [defining s] }

def undefine (r : Request) (s : String) : Request :=
  { r with definitions := r.definitions ++ ["#undef " ++ s] }

/-- A request with a header that is read before the source. -/
def includeFirst (r : Request) (s : String) : Request :=
  { r with inclusions := r.inclusions ++ ["#include \"" ++ s ++ "\""] }

/-- A request with a library. There is none if no such library is known. -/
def link? (r : Request) (name : String) : Option Request :=
  if knownLibraries.contains name then some { r with libraries := name :: r.libraries } else none

def product? : String → Option Product
  | "-c" | "-S" | "-E" | "-M" | "-MM" | "--preprocess" | "--assemble" | "--compile"
  | "--dependencies" | "--user-dependencies" => some .other
  | "--version" | "--help" | "-dumpversion" | "-dumpfullversion" | "-dumpmachine" | "-dumpspecs"
  | "-###" | "--target-help" | "-print-search-dirs" | "-print-libgcc-file-name"
  | "-print-multiarch" | "-print-multi-lib" | "-print-multi-directory"
  | "-print-multi-os-directory" | "-print-sysroot" => some .nothing
  | _ => none

/-- Reads an option that stands alone. -/
def option? (r : Request) (arg : String) : Option Request :=
  let kinds : List (String × (String → Option Request)) :=
    [("-O", fun level =>
        if level.toList.all Char.isDigit || ["s", "g", "z", "fast"].contains level then
          some { r with level }
        else none),
      ("--sysroot=", fun dir => if dir = "/" then some r else none),
      ("--optimize=", fun level => if isNumber level then some { r with level } else none),
      ("-std=", r.standard?), ("--std=", r.standard?),
      ("-Wl,", fun s => r.linker? (s.splitOn ",")),
      ("-Wa,", fun s => if s.isEmpty || s.startsWith "-" then some r else none),
      ("-Wp,-D", fun s => some (r.define s)), ("-Wp,-U", fun s => some (r.undefine s)),
      ("-Wp,", fun s => if s.startsWith "-" then some r else none),
      ("-W", r.warnings?), ("-f", r.feature?), ("-march=", fun s => r.machine? ("arch=" ++ s)),
      ("-m", r.machine?), ("-l", r.link?), ("-x", r.language?), ("--param=", r.parameter?),
      ("-D", fun s => some (r.define s)), ("--define-macro=", fun s => some (r.define s)),
      ("-U", fun s => some (r.undefine s)), ("--undefine-macro=", fun s => some (r.undefine s)),
      ("--include=", fun s => some (r.includeFirst s)), ("-include", fun s => some (r.includeFirst s)),
      ("-isystem", fun _ => some r), ("-iquote", fun _ => some r), ("-idirafter", fun _ => some r),
      ("-I", fun _ => some r), ("-L", fun _ => some r), ("-B", fun _ => some r),
      ("-u", fun _ => some r), ("-e", fun _ => some r), ("-o", fun _ => some r),
      ("-print-prog-name=", fun _ => some { r with product := .nothing }),
      ("-print-file-name=", fun _ => some { r with product := .nothing })]
  match kinds.findSome? fun (front, read) => (after? front arg).map read with
  | some result => result
  | none => none

/-- The options whose value is the next argument and changes nothing. -/
def paired : List String :=
  ["-o", "-I", "-L", "-B", "-isystem", "-iquote", "-idirafter", "-u", "-e", "-aux-info",
    "-isysroot", "-dumpbase", "-dumpdir", "--include-directory"]

/-- Reads the arguments of a compiler. There is no request if one of them is not known. -/
def read? (r : Request) : List String → Option Request
  | [] => some r
  | "-D" :: s :: rest => read? (r.define s) rest
  | "-U" :: s :: rest => read? (r.undefine s) rest
  | "-include" :: s :: rest => read? (r.includeFirst s) rest
  | "-l" :: s :: rest => (r.link? s).bind fun r => read? r rest
  | "-x" :: s :: rest => (r.language? s).bind fun r => read? r rest
  | "--param" :: s :: rest => (r.parameter? s).bind fun r => read? r rest
  | "-z" :: s :: rest => (r.linker? ["-z", s]).bind fun r => read? r rest
  | "-Xlinker" :: s :: rest => (r.linker? [s]).bind fun r => read? r rest
  | "-ansi" :: rest | "--ansi" :: rest => (r.standard? "c90").bind fun r => read? r rest
  | "-w" :: rest | "--no-warnings" :: rest => read? { r with isSilent := true } rest
  | "-pedantic" :: rest | "--pedantic" :: rest =>
    read? { r with warnings := ("pedantic", .on) :: r.warnings } rest
  | "-pedantic-errors" :: rest | "--pedantic-errors" :: rest => read? { r with isPedantic := true } rest
  | "-nostdinc" :: rest | "-undef" :: rest =>
    read? { r with dialect := { r.dialect with hasHeaders := false } } rest
  | arg :: rest =>
    if paired.contains arg then
      match rest with
      | [] => none
      | _ :: rest => read? r rest
    else match product? arg with
      | some product => read? { r with product } rest
      | none =>
        if Options.plain.contains arg then read? r rest
        else (r.option? arg).bind fun r => read? r rest

/-! ## What is made of a source -/

def source (r : Request) (text : String) : String :=
  String.join ((r.definitions ++ r.inclusions).map (· ++ "\n")) ++ text

def isPlain (r : Request) : Bool := r.definitions.isEmpty && r.inclusions.isEmpty

def language (r : Request) : Dialect :=
  if r.isPlus then { r.dialect with version := 201710, isGnu := true, isPlus := true } else r.dialect

/-- Whether code that has no effect is left out. -/
def isOptimized (r : Request) : Bool := !(r.level.toList.all (· = '0') && !r.level.isEmpty)

/-- Whether an option of code generation is on. -/
def has (r : Request) (feature : String) (otherwise : Bool) : Bool :=
  (r.features.lookup feature).getD otherwise

/-- Whether the machine has instructions, by what is said of it last. -/
def hasInstructions (r : Request) (names missing : List String) : Bool :=
  let isNamed := names.any fun name => (r.machine.lookup name).getD false
  let isNewer := r.machine.any fun (name, _) =>
    (after? "arch=" name).any fun machine => !missing.contains machine
  isNamed || isNewer

/-- The functions of mathematics whose calls are replaced by other code. -/
def replaced (r : Request) : List String :=
  let isFast := r.has "fast-math" (r.level = "fast")
  let rounds := r.hasInstructions ["sse4.1", "sse4.2", "sse4", "avx", "avx2", "fma", "avx512f"]
    oldMachines
  let multiplies := r.hasInstructions ["fma", "avx512f"] (oldMachines ++ separateMachines)
  let extra (isOn : Bool) (names : List String) : List String := if isOn then names else []
  if !r.has "builtin" (r.has "hosted" true) || r.has "freestanding" false then []
  else if !r.isOptimized then ["fabs"]
  else ["fabs", "ceil", "floor", "trunc", "rint", "copysign"]
    ++ extra isFast ["lround", "llround"]
    ++ extra (!r.has "math-errno" !isFast) ["sqrt", "lrint", "llrint", "fmod", "remainder"]
    ++ extra (!r.has "trapping-math" !isFast) ["round"]
    ++ extra (r.has "finite-math-only" isFast) ["fmax", "fmin", "fmod", "remainder"]
    ++ extra rounds ["nearbyint"] ++ extra multiplies ["fma"]

/-- Whether the functions of mathematics are found when the library is loaded. -/
def hasMathematics (r : Request) : Bool := r.isPlus || r.libraries.any mathematical.contains

end Request

end LoopNest.Compiler
