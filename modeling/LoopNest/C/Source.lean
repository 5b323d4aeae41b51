import LoopNest.C.Run
import LoopNest.Compiler.Literal
import LoopNest.Compiler.Reading

/-!
# Kernels as texts

Reads the text of a kernel: a comment, the header for the heap, the function and its entry point, with
one statement on a line. The tokens and the numbers are those of a compiler, products bind more tightly
than sums, and a name means an array, a temporary, a loop or a function by its first letters. A text that
says anything else is refused.
-/

namespace LoopNest.C

open Compiler (Token)

/-! ## Names and numbers -/

/-- The words that mean something else in the file. -/
def reserved : List String :=
  Compiler.keywords ++ ["args", "abort", "abs", "atexit", "atof", "atoi", "atol", "atoll", "bsearch",
    "calloc", "div", "exit", "free", "getenv", "labs", "ldiv", "llabs", "lldiv", "malloc", "mblen",
    "mbstowcs", "mbtowc", "qsort", "rand", "realloc", "size_t", "srand", "strtod", "strtof", "strtol",
    "strtold", "strtoll", "strtoul", "strtoull", "system", "wchar_t", "wcstombs", "wctomb"]

/-- The value of an integer; a zero in front would mean another base. -/
def decimal? (s : String) : Option Nat :=
  let n := Compiler.Literal.value 10 s.toList
  if toString n = s then some n else none

/-- The tensor that an array is named after. -/
def tensor? (w : String) : Option String :=
  match w.toList with
  | 't' :: '_' :: cs => some (String.ofList cs)
  | _ => none

def temp? (w : String) : Option Nat :=
  match w.toList with
  | 's' :: ds => decimal? (String.ofList ds)
  | _ => none

/-- Whether a word can be the index of a loop. -/
def isIndex (w : String) : Bool := !reserved.contains w && (tensor? w).isNone && (temp? w).isNone

def isDouble (s : String) : Bool := (Compiler.Literal.fraction? s).map (·.2) == some .double

def arithOf? (sign : String) : Option ArithOp := [.add, .sub, .mul, .div].find? (·.sign == sign)

/-! ## Expressions -/

/-- What an operand continues: a sum and, after its last sign, a product. -/
structure Pending where
  sum : Option (Expr × ArithOp) := none
  product : Option (Expr × ArithOp) := none
deriving Inhabited

/-- An operation with its second operand. -/
def complete : Option (Expr × ArithOp) → Expr → Expr
  | none, y => y
  | some (x, op), y => .arith op x y

namespace Pending

/-- The value if it ends with an operand. -/
def value (s : Pending) (x : Expr) : Expr := complete s.sum (complete s.product x)

/-- What the operand after an operation continues. -/
def push (s : Pending) (x : Expr) : ArithOp → Pending
  | .add => { sum := some (s.value x, .add) }
  | .sub => { sum := some (s.value x, .sub) }
  | .mul => { s with product := some (complete s.product x, .mul) }
  | .div => { s with product := some (complete s.product x, .div) }

end Pending

section

variable (constant : String → Float)

mutual
/-- Reads an expression from an operand on, with the tokens that follow it. `outer` are the expressions
around the open brackets, innermost first. A minus in front of a number is read with it. -/
def operand? (outer : List Pending) (s : Pending) : List Token → Option (Expr × List Token)
  | .number n :: ts => if isDouble n then operator? outer s (.literal (constant n)) ts else none
  | .mark "-" :: .number n :: ts =>
    if isDouble n then operator? outer s (.literal (constant ("-" ++ n))) ts else none
  | .mark "(" :: ts => operand? (s :: outer) {} ts
  | .word w :: .mark "[" :: ts => do index? outer s (← tensor? w) [] ts
  | .word w :: ts => do operator? outer s (.temp (← temp? w)) ts
  | _ => none

def operator? (outer : List Pending) (s : Pending) (x : Expr) : List Token → Option (Expr × List Token)
  | .mark m :: ts =>
    match arithOf? m, outer with
    | some op, outer => operand? outer (s.push x op) ts
    | none, [] => some (s.value x, .mark m :: ts)
    | none, o :: outer => if m = ")" then operator? outer o (s.value x) ts else none
  | _ => none

/-- Reads the index that the position of an element goes on with. `steps` are the indices and the extents
in front of the open brackets, innermost first. -/
def index? (outer : List Pending) (s : Pending) (tensor : String) (steps : List (Index × Int)) :
    List Token → Option (Expr × List Token)
  | .word w :: ts => if isIndex w then position? outer s tensor steps (.index (.loop w)) ts else none
  | .number n :: ts => do position? outer s tensor steps (.index (.fixed (← decimal? n))) ts
  | .mark "-" :: .number n :: ts => do position? outer s tensor steps (.index (.fixed (-(← decimal? n)))) ts
  | _ => none

def position? (outer : List Pending) (s : Pending) (tensor : String) (steps : List (Index × Int))
    (o : Offset) : List Token → Option (Expr × List Token)
  | .mark "+" :: .number n :: .mark "*" :: .mark "(" :: ts =>
    match o with
    | .index i => do index? outer s tensor ((i, (← decimal? n : Int)) :: steps) ts
    | .step .. => none
  | .mark "+" :: .mark "-" :: .number n :: .mark "*" :: .mark "(" :: ts =>
    match o with
    | .index i => do index? outer s tensor ((i, -(← decimal? n : Int)) :: steps) ts
    | .step .. => none
  | .mark ")" :: ts =>
    match steps with
    | [] => none
    | (i, extent) :: steps => position? outer s tensor steps (.step i extent o) ts
  | .mark "]" :: ts => if steps.isEmpty then operator? outer s (.element ⟨tensor, o⟩) ts else none
  | _ => none
end

/-- Reads an expression, with the tokens that follow it. -/
def expr? (ts : List Token) : Option (Expr × List Token) := operand? constant [] {} ts

/-! ## Lines -/

/-- The tokens after given ones. -/
def after? (start ts : List Token) : Option (List Token) :=
  if start.isPrefixOf ts then some (ts.drop start.length) else none

/-- The tokens before given ones. -/
def before? (finish ts : List Token) : Option (List Token) :=
  if finish.isSuffixOf ts then some (ts.take (ts.length - finish.length)) else none

def word? : List Token → Option (String × List Token)
  | .word w :: ts => some (w, ts)
  | _ => none

def integer? : List Token → Option (Int × List Token)
  | .number n :: ts => do return (← decimal? n, ts)
  | .mark "-" :: .number n :: ts => do return (-(← decimal? n), ts)
  | _ => none

variable (element : String)

/-- The index and the extent of the loop that a line opens. -/
def loop? (ts : List Token) : Option (String × Int) := do
  let (index, ts) ← word? (← after? [.word "for", .mark "(", .word "int"] ts)
  let ts ← after? [.mark "=", .number "0", .mark ";", .word index, .mark "<"] ts
  let (extent, ts) ← integer? ts
  if ts = [.mark ";", .word index, .mark "++", .mark ")", .mark "\x7b"] && isIndex index then
    return (index, extent)
  none

/-- The statement on a line, other than a loop. -/
def statement? (ts : List Token) : Option Stmt :=
  match after? [.word element] ts with
  | some ts => do
    let (w, ts) ← word? ts
    match ← expr? constant (← after? [.mark "="] ts) with
    | (value, [.mark ";"]) => return .declare (← temp? w) value
    | _ => none
  | none => do
    match ← expr? constant ts with
    | (.element dst, .mark "=" :: ts) =>
      if ts = [.number "0", .mark ";"] then return .clear dst
      match ← expr? constant ts with
      | (value, [.mark ";"]) => return .store dst value
      | _ => none
    | (.element dst, .mark "+=" :: ts) =>
      match ← expr? constant ts with
      | (.arith .mul x y, [.mark ";"]) => return .accumulate dst x y
      | _ => none
    | _ => none

/-- Reads the statements of a block, with the lines that follow it. `frames` are the open loops, innermost
first, each with the statements in front of it, last one first; `done` are those that are in the innermost
one so far. -/
def block? (frames : List (String × Int × List Stmt)) (done : List Stmt) :
    List (List Token) → Option (List Stmt × List (List Token))
  | [] => none
  | line :: lines =>
    match loop? line, statement? constant element line with
    | some (index, extent), _ => block? ((index, extent, done) :: frames) [] lines
    | none, some s => block? frames (s :: done) lines
    | none, none =>
      match frames with
      | [] => some (done.reverse, line :: lines)
      | (index, extent, before) :: frames =>
        if line = [.mark "\x7d"] then block? frames (.loop index extent done.reverse :: before) lines
        else none

/-- The tensor and the size of the buffer that a line allocates. -/
def allocation? (ts : List Token) : Option (String × Int) := do
  let (w, ts) ← word? (← after? [.word element, .mark "*"] ts)
  let (size, ts) ← integer? (← after? [.mark "=", .mark "(", .word element, .mark "*", .mark ")",
    .word "malloc", .mark "("] ts)
  if ts = [.mark "*", .word "sizeof", .mark "(", .word element, .mark ")", .mark ")", .mark ";"] then
    return (← tensor? w, size)
  none

/-- The tensor of the buffer that a line frees. -/
def release? (ts : List Token) : Option String := do
  let (w, ts) ← word? (← after? [.word "free", .mark "("] ts)
  if ts = [.mark ")", .mark ";"] then tensor? w else none

/-- What the lines at the start are read as, and the lines from the first one on that is not read. -/
def leading (read? : List Token → Option β) : List (List Token) → List β × List (List Token)
  | [] => ([], [])
  | line :: lines =>
    match read? line with
    | some b => (b :: (leading read? lines).1, (leading read? lines).2)
    | none => ([], line :: lines)

/-- The tokens between commas, `piece` being those since the last one. -/
def piecesFrom (piece : List Token) : List Token → List (List Token)
  | [] => [piece]
  | .mark "," :: ts => piece :: piecesFrom [] ts
  | t :: ts => piecesFrom (piece ++ [t]) ts

def items (ts : List Token) : List (List Token) := if ts.isEmpty then [] else piecesFrom [] ts

def param? (ts : List Token) : Option String := do
  let (w, ts) ← word? (← after? [.word element, .mark "*"] ts)
  if ts.isEmpty then tensor? w else none

/-- The position of an argument that the entry point passes on. -/
def arg? (ts : List Token) : Option Nat := do
  let ts ← after? [.mark "(", .word element, .mark "*", .mark ")", .word "args", .mark "["] ts
  match ts with
  | [.number n, .mark "]"] => decimal? n
  | _ => none

/-- The name and the parameters of the function that a line opens. -/
def head? (ts : List Token) : Option (String × List String) := do
  let (name, ts) ← word? (← after? [.word "void"] ts)
  let ts ← before? [.mark ")", .mark "\x7b"] (← after? [.mark "("] ts)
  if reserved.contains name then none
  return (name, ← (items ts).mapM (param? element))

/-- The name of the entry point that a line opens. -/
def entry? (ts : List Token) : Option String := do
  let (name, ts) ← word? (← after? [.word "void"] ts)
  if ts = [.mark "(", .word "void", .mark "*", .mark "*", .word "args", .mark ")", .mark "\x7b"]
      && !reserved.contains name then
    return name
  none

def call? (name : String) (ts : List Token) : Option (List Nat) := do
  let ts ← before? [.mark ")", .mark ";"] (← after? [.word name, .mark "("] ts)
  (items ts).mapM (arg? element)

def isComment (line : String) : Bool :=
  match line.toList with
  | '/' :: '*' :: cs => closes cs
  | _ => false
where
  /-- The first end of a comment is the end of the characters. -/
  closes : List Char → Bool
    | ['*', '/'] => true
    | '*' :: '/' :: _ => false
    | _ :: cs => closes cs
    | [] => false

def tokens (line : String) : List Token := (Token.ofLine [] 0 line.toList).map (·.token)

/-- The tokens of the lines that are not blank. -/
def tokenLines (lines : List String) : List (List Token) := (lines.map tokens).filter (!·.isEmpty)

/-! ## Files -/

/-- A kernel as its text says it. -/
structure Source where
  name : String
  params : List String
  /-- The tensors of the buffers that are allocated, with their element counts. -/
  buffers : List (String × Int)
  body : List Stmt
  /-- The tensors of the buffers that are freed. -/
  freed : List String
  entry : String
  /-- The positions of the arguments that the entry point passes on. -/
  passed : List Nat
deriving Inhabited

namespace Source

/-- Reads the lines of a function and of its entry point. -/
def ofLines? : List (List Token) → Option Source
  | [] => none
  | head :: lines => do
    let (name, params) ← head? element head
    let (buffers, lines) := leading (allocation? element) lines
    let (body, lines) ← block? constant element [] [] lines
    let (freed, lines) := leading release? lines
    match lines with
    | [[.mark "\x7d"], entry, call, [.mark "\x7d"]] =>
      return { name, params, buffers, body, freed, entry := ← entry? entry
               passed := ← call? element name call }
    | _ => none

/-- Reads the text of a kernel. `constant` gives the numbers of type double their values, and `element`
is the type of the elements. -/
def read? (text : String) : Option Source :=
  match Text.lines text with
  | comment :: header :: lines =>
    if isComment comment && header = "#include <stdlib.h>" then
      ofLines? constant element (tokenLines lines)
    else none
  | _ => none

end Source

end

/-- Runs a kernel on its arguments; the result is the arguments afterwards. Each array has a name of its
own, and no memory is freed that is not allocated. -/
def Source.run [Scalar α] (round : α → α) (s : Source) (contents : String → Nat → α)
    (args : List (Array α)) : Option (List (Array α)) := do
  let buffers := s.buffers.map (·.1)
  if (s.params ++ buffers).Nodup ∧ s.freed.Nodup ∧ (∀ b ∈ s.freed, b ∈ buffers) ∧
      args.length = s.params.length then
    let arrays ← Stmt.runAll round {} (startArrays s.params s.buffers contents args) s.body
    s.params.mapM arrays.get?
  else none

end LoopNest.C
