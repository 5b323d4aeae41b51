import LoopNest.Compiler.Declaration
import LoopNest.Compiler.Header

/-!
# Functions that the compiler knows

The functions that can be called without a declaration with the types that the library gives them,
and those whose names start like functions of the compiler.
-/

namespace LoopNest.Compiler

namespace Builtin

/-- The start of the names of the compiler. -/
def opening : String := "__builtin_"

/-- Functions of the library that the compiler knows, besides those of the mathematics header. -/
def libraryNames : List String :=
  ["abort", "abs", "calloc", "exit", "_Exit", "free", "labs", "llabs", "malloc", "realloc",
    "fprintf", "fputc", "fputs", "fscanf", "fwrite", "printf", "putchar", "puts", "scanf",
    "snprintf", "sprintf", "sscanf", "vfprintf", "vfscanf", "vprintf", "vscanf", "vsnprintf",
    "vsprintf", "vsscanf", "memchr", "memcmp", "memcpy", "memmove", "memset", "strcat", "strchr",
    "strcmp", "strcpy", "strcspn", "strlen", "strncat", "strncmp", "strncpy", "strpbrk", "strrchr",
    "strspn", "strstr", "isalnum", "isalpha", "isblank", "iscntrl", "isdigit", "isgraph",
    "islower", "isprint", "ispunct", "isspace", "isupper", "isxdigit", "tolower", "toupper",
    "imaxabs"]

def mathNames : List String :=
  Header.mathTypes.flatMap fun (_, suffix) =>
    (Header.mathUnary ++ Header.mathBinary ++ Header.mathOthers.map (·.1)).map (· ++ suffix)

/-- Functions that the compiler knows only with some versions of the language. -/
def otherNames : List String :=
  ["alloca", "bcmp", "bcopy", "bzero", "ffs", "index", "rindex", "stpcpy", "strdup", "strndup",
    "strcasecmp", "strncasecmp", "mempcpy"]

/-- Whether the compiler knows a function without a declaration. -/
def isKnown (isGnu : Bool) (w : String) : Bool :=
  libraryNames.contains w || mathNames.contains w || (isGnu && otherNames.contains w)

/-- The functions of the compiler that are no functions of the library. -/
def declarations : List String :=
  ["int popcount (unsigned int)", "int popcountl (unsigned long)",
    "int popcountll (unsigned long long)", "int clz (unsigned int)", "int clzl (unsigned long)",
    "int clzll (unsigned long long)", "int ctz (unsigned int)", "int ctzl (unsigned long)",
    "int ctzll (unsigned long long)", "int ffs (int)", "int ffsl (long)", "int ffsll (long long)",
    "int parity (unsigned int)", "int parityl (unsigned long)", "int parityll (unsigned long long)",
    "int clrsb (int)", "unsigned short bswap16 (unsigned short)",
    "unsigned int bswap32 (unsigned int)", "unsigned long bswap64 (unsigned long)",
    "double inf (void)", "float inff (void)", "long double infl (void)", "double huge_val (void)",
    "float huge_valf (void)", "long double huge_vall (void)", "double nan (const char *)",
    "float nanf (const char *)", "long double nanl (const char *)", "double powi (double, int)",
    "float powif (float, int)", "void prefetch (const void *, ...)",
    "void *assume_aligned (const void *, unsigned long, ...)",
    "void *return_address (unsigned int)", "void *frame_address (unsigned int)",
    "void trap (void)", "void unreachable (void)", "long expect (long, long)",
    "long expect_with_probability (long, long, double)", "void *alloca (unsigned long)",
    "unsigned long object_size (const void *, int)", "void *mempcpy (void *, const void *, unsigned long)",
    "char *strdup (const char *)", "void bzero (void *, unsigned long)",
    "char *index (const char *, int)", "char *stpcpy (char *, const char *)"]

def table : Std.HashMap String String :=
  Std.HashMap.ofList (declarations.map fun line => (Header.declaredName line, line))

/-- A token with a type of a header replaced by a type that is always there. -/
def plainType : Token → List Token
  | .word "size_t" => [.word "unsigned", .word "long"]
  | .word "FILE" => [.word "void"]
  | .word "wchar_t" => [.word "int"]
  | .word "intmax_t" => [.word "long"]
  | .word "__gnuc_va_list" => [.word "__builtin_va_list"]
  | .word "extern" | .mark ";" => []
  | t => [t]

/-- Questions about fractions of any type. -/
def questions : List (String × Question) :=
  [("isnan", .isNaN), ("isnanf", .isNaN), ("isnanl", .isNaN), ("isinf", .isInfinite),
    ("isinff", .isInfinite), ("isinfl", .isInfinite), ("isinf_sign", .infiniteSign),
    ("isfinite", .isFinite), ("finite", .isFinite), ("finitef", .isFinite), ("finitel", .isFinite),
    ("isnormal", .isNormal), ("signbit", .isNegative), ("signbitf", .isNegative),
    ("signbitl", .isNegative)]

def comparisons : List (String × Operator) :=
  [("isgreater", .gt), ("isgreaterequal", .ge), ("isless", .lt), ("islessequal", .le)]

/-- Operations that also tell whether the result is too large for its place. -/
def checked : List (String × Operator) :=
  [("add_overflow", .add), ("sub_overflow", .sub), ("mul_overflow", .mul)]

/-- Operations on an integer at an address that give the value before or after it. -/
def atomics : List (String × Operator × Bool) :=
  [("__sync_fetch_and_add", .add, true), ("__sync_fetch_and_sub", .sub, true),
    ("__sync_fetch_and_or", .or, true), ("__sync_fetch_and_and", .and, true),
    ("__sync_fetch_and_xor", .xor, true), ("__sync_add_and_fetch", .add, false),
    ("__sync_sub_and_fetch", .sub, false), ("__sync_or_and_fetch", .or, false),
    ("__sync_and_and_fetch", .and, false), ("__sync_xor_and_fetch", .xor, false),
    ("__atomic_fetch_add", .add, true), ("__atomic_fetch_sub", .sub, true),
    ("__atomic_fetch_or", .or, true), ("__atomic_fetch_and", .and, true),
    ("__atomic_fetch_xor", .xor, true), ("__atomic_add_fetch", .add, false),
    ("__atomic_sub_fetch", .sub, false), ("__atomic_or_fetch", .or, false),
    ("__atomic_and_fetch", .and, false), ("__atomic_xor_fetch", .xor, false)]

end Builtin

namespace Reading

def prototype (r : Readers) (line : String) : Reading CType := do
  let before := (← get).tokens
  let tokens := (Token.ofLine [] 0 line.toList).flatMap fun t => Builtin.plainType t.token
  modify fun p => { p with tokens }
  let sp ← r.specifiers
  let d ← r.declarator
  let (_, t) ← typeOf sp d.steps
  modify fun p => { p with tokens := before }
  return t

/-- The symbol of a function that is used without a declaration here. -/
def undeclared (w : String) (t : CType) : Reading Operand := do
  let p ← get
  let id ← match p.outer.get? w with
    | some id => pure id
    | none =>
      let id ← addSymbol { name := w, type := t, isImplicit := true }
      modify fun p => { p with outer := p.outer.insert w id }
      pure id
  let s ← symbol id
  return { node := .symbol id, type := s.type, isPlace := !s.type.isFunction }

/-- A function that is called without a declaration: one that the compiler knows has the type of the
library, and any other one gives an integer. -/
def implicit (r : Readers) (w : String) : Reading Operand := do
  let p ← get
  require !p.dialect.isPlus
  warn "implicit-function-declaration"
  match if Builtin.isKnown p.dialect.isGnu w then Header.functions.get? w else none with
  | some line => undeclared w (← prototype r line)
  | none => undeclared w (.function .int true [] false)

def compilerFunction (r : Readers) (w : String) : Reading Operand := do
  let root := String.ofList (w.toList.drop Builtin.opening.length)
  match Builtin.table.get? root, Header.functions.get? root with
  | some line, _ => undeclared w (← prototype r line)
  | none, some line => undeclared root (← prototype r line)
  | none, none => implicit r w

/-- The value of a call of an operation of the compiler for operands of any type; there is none if
the name is not that of one. -/
def generic? (w : String) (args : List Operand) : Reading (Option Operand) := do
  let root := if w.startsWith Builtin.opening
    then String.ofList (w.toList.drop Builtin.opening.length) else w
  let values ← args.mapM rvalue
  let double (o : Operand) : Reading Node := do
    require o.type.isReal
    convertNode .double o
  let kind (o : Operand) : Cell := match o.type with
    | .fraction k => .fraction k
    | _ => .fraction .double
  if w ≠ root then
    match root, values with
    | "constant_p", [o] =>
      let isKnown := (o.node.fold? (← known true)).isSome
      return some (.ofInteger .int (if isKnown then 1 else 0))
    | "va_start", [ap, _] | "va_start", [ap] =>
      require ((← get).frames.head?.any (·.isVariadic))
      return some { node := .operation .startArguments [] [ap.node], type := .void }
    | "va_end", [ap] => return some { node := .convert Cell.pointer .nothing ap.node, type := .void }
    | "va_copy", [d, s] =>
      return some { node := .operation .copyArguments [] [d.node, s.node], type := .void }
    | "fpclassify", [a, b, c, d, e, x] =>
      let classes ← [a, b, c, d, e].mapM (convertNode .int)
      let node := Node.operation .classify [kind x] (classes ++ [← double x])
      return some { node, type := .int }
    | "isunordered", [x, y] =>
      return some { node := .operation .unordered [] [← double x, ← double y], type := .int }
    | "islessgreater", [x, y] =>
      return some { node := .operation .unequal [] [← double x, ← double y], type := .int }
    | root, [x, y] =>
      match Builtin.comparisons.lookup root with
      | some op =>
        return some (.ofTruth (.binary op (.fraction .double) (← double x) (← double y)))
      | none => return none
    | root, [x, y, place] =>
      match Builtin.checked.lookup root, place.type with
      | some op, .pointer _ (.integer k) =>
        require (x.type.isInteger && y.type.isInteger)
        let wide := CType.integer .int128
        let v := Node.binary op (.integer .int128) (← convertNode wide x) (← convertNode wide y)
        return some { node := .operation .checked [.integer k] [v, place.node], type := .integer .bool }
      | _, _ => return none
    | root, [x] =>
      match Builtin.questions.lookup root with
      | some question =>
        require (!x.type.isInteger)
        return some { node := .operation (.ask question) [kind x] [← double x], type := .int }
      | none => return none
    | _, _ => return none
  else
    match Builtin.atomics.lookup w, values with
    | some (op, isPost), place :: x :: _ =>
      match place.type with
      | .pointer _ t =>
        let k ← demand (match t with
          | .pointer _ _ => some .unsignedLong
          | t => t.integer?)
        let cell := Cell.integer k
        let x ← convertNode (.integer k) x
        return some { node := .update (.whole cell) op cell isPost place.node x, type := t }
      | _ => refuse
    | none, place :: x :: _ =>
      match w, place.type with
      | "__sync_lock_test_and_set", .pointer _ t | "__atomic_exchange_n", .pointer _ t =>
        return some { node := .operation .exchange [← cellOf t] [place.node, ← convertNode t x], type := t }
      | "__atomic_store_n", .pointer _ t =>
        let node := Node.storing (.whole (← cellOf t)) place.node (← convertNode t x)
        return some { node := .convert (← cellOf t) .nothing node, type := .void }
      | "__atomic_load_n", .pointer _ t =>
        return some { node := .load (.whole (← cellOf t)) place.node, type := t }
      | _, _ => return none
    | _, _ =>
      return if w = "__sync_synchronize" then some { node := .convert Cell.pointer .nothing (.integer 0), type := .void }
        else none

end Reading

end LoopNest.Compiler
