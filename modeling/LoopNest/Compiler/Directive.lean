import LoopNest.Compiler.Condition
import LoopNest.Compiler.Definition
import LoopNest.Compiler.Dialect
import LoopNest.Compiler.Header
import LoopNest.Compiler.Line

/-!
# Directives of C sources

The lines that start with a number sign are carried out, and all other lines are cut into tokens, in
which defined names are replaced.
-/

namespace LoopNest.Compiler

/-- A part of a source that is read under a condition: whether its lines are read, whether some
lines of it have been read before, and whether it is the last one. -/
structure Branch where
  isRead : Bool
  wasRead : Bool
  isLast : Bool := false
deriving DecidableEq, Repr, Inhabited

/-- What has been read of a source. -/
structure Lexed where
  dialect : Dialect := {}
  /-- The tokens whose names have been replaced, last one first. -/
  tokens : List Lexeme := []
  /-- The tokens whose names are still to be replaced, last one first. -/
  pending : List Lexeme := []
  /-- The headers that have been included. -/
  included : List String := []
  definitions : Definitions := {}
  counter : Nat := 0
  /-- The conditions that are open, innermost first. -/
  branches : List Branch := []
  /-- The meanings that names have been put aside with. -/
  saved : List (String × Option Definition) := []
  /-- What is added to the numbers of lines. -/
  shift : Int := 0
deriving Inhabited

namespace Lexed

/-- The most tokens that are replaced. -/
def limit : Nat := 4000000

def isRead (l : Lexed) : Bool := l.branches.all Branch.isRead

def lex (l : Lexed) (number : Nat) (cs : List Char) : List Lexeme :=
  Token.ofLine l.dialect.encodings (number + l.shift).toNat cs

/-- Replaces the pragmas among tokens that are written like calls; the result comes last token
first. -/
def pragmas (encodings : List String) (done : List Lexeme) : List Lexeme → Option (List Lexeme)
  | [] => some done
  | t :: rest =>
    if t.token = .word "_Pragma" then
      match rest with
      | a :: b :: c :: rest =>
        match a.token, b.token, c.token with
        | .mark "(", .text _ s, .mark ")" =>
          let plain := s.replace "\\\"" "\""
          let words := (Token.ofLine encodings t.line plain.toList).map (·.token.spelling)
          pragmas encodings ({ t with token := .pragma words } :: done) rest
        | _, _, _ => none
      | _ => none
    else pragmas encodings (t :: done) rest

/-- Replaces the defined names of the tokens that wait for it. -/
def flush (l : Lexed) : Option Lexed := do
  if l.pending.isEmpty then return l
  let (ts, counter) ← l.definitions.expand limit l.counter [] l.pending.reverse
  let ts ← pragmas l.dialect.encodings [] ts.reverse
  return { l with tokens := ts ++ l.tokens, pending := [], counter }

/-- Replaces the defined names of the tokens of a directive. -/
def replaced (l : Lexed) (ts : List Lexeme) : Option (List Lexeme) := do
  let (ts, _) ← l.definitions.expand limit l.counter [] ts
  return ts.reverse

def openBranch (l : Lexed) (holds : Bool) : Lexed :=
  { l with branches := ⟨holds, holds, false⟩ :: l.branches }

/-- The answers to questions about names: whether they are defined, and whether there is a header
or an attribute of that name. -/
def answered (l : Lexed) (fuel : Nat) (done : List Lexeme) (ts : List Lexeme) :
    Option (List Lexeme) :=
  match fuel, ts with
  | 0, _ | _, [] => some done.reverse
  | fuel + 1, t :: rest =>
    let answer (b : Bool) (rest : List Lexeme) :=
      answered l fuel ({ t with token := .number (if b then "1" else "0") } :: done) rest
    match t.token, rest with
    | .word "defined", a :: rest =>
      match a.token, rest with
      | .word w, rest => answer (l.definitions.has w) rest
      | .mark "(", b :: c :: rest =>
        match b.token, c.token with
        | .word w, .mark ")" => answer (l.definitions.has w) rest
        | _, _ => none
      | _, _ => none
    | .word "defined", [] => none
    | .word w, a :: rest' =>
      if w.startsWith "__has_" && a.token = .mark "(" then
        match Definitions.arguments 0 0 [] [] rest' with
        | some ([inside], _, after) =>
          let s := spelled (inside.map fun t => { t with spaced := false })
          let name := String.ofList ((s.toList.drop 1).dropLast)
          if w = "__has_include" || w = "__has_include_next" then
            answer (Header.ofName? name).isSome after
          else answer true after
        | _ => none
      else answered l fuel (t :: done) rest
    | _, rest => answered l fuel (t :: done) rest

def condition? (l : Lexed) (ts : List Lexeme) : Option Bool := do
  let ts ← l.answered (ts.length + 1) [] ts
  return (← Condition.ofTokens? ((← l.replaced ts).map (·.token))).holds

def name? : List Lexeme → Option String
  | t :: _ =>
    match t.token with
    | .word w => some w
    | _ => none
  | [] => none

/-- Carries out a directive that opens, continues or closes a condition; there is no result for
another one. -/
def conditional? (l : Lexed) (directive : String) (ts : List Lexeme) : Option (Option Lexed) :=
  let opened (isDefined : Bool) : Option Lexed :=
    if !l.isRead then some (l.openBranch false)
    else (name? ts).map fun w => l.openBranch (l.definitions.has w == isDefined)
  let continued (value : Lexed → Option Bool) : Option Lexed :=
    match l.branches with
    | [] => none
    | b :: outer =>
      let l := { l with branches := outer }
      if b.isLast then none
      else if b.wasRead || !l.isRead then some { l with branches := ⟨false, true, false⟩ :: outer }
      else (value l).map l.openBranch
  match directive with
  | "ifdef" => some (opened true)
  | "ifndef" => some (opened false)
  | "if" => some (if l.isRead then (l.condition? ts).map l.openBranch else some (l.openBranch false))
  | "elif" => some (continued fun l => l.condition? ts)
  | "elifdef" =>
    if l.dialect.isGnu then some (continued fun l => (name? ts).map l.definitions.has) else none
  | "elifndef" =>
    if l.dialect.isGnu then some (continued fun l => (name? ts).map fun w => !l.definitions.has w)
    else none
  | "else" =>
    some (match l.branches with
      | [] => none
      | b :: outer =>
        if b.isLast then none else some { l with branches := ⟨!b.wasRead, true, true⟩ :: outer })
  | "endif" =>
    some (match l.branches with
      | [] => none
      | _ :: outer => some { l with branches := outer })
  | _ => none

/-- The names of the parameters of a definition, whether the last one takes all further arguments,
and what follows them. -/
def parameters? (ts : List Lexeme) : Option (List String × Bool × List Lexeme) := do
  let (args, _, rest) ← Definitions.arguments ts.length 0 [] [] ts
  let args := args.reverse.map (·.map (·.token))
  if args = [[]] then return ([], false, rest)
  let isRest (arg : List Token) : Bool := arg.getLast? = some (.mark "...")
  let names ← args.mapM fun
    | [.word w] | [.word w, .mark "..."] => some w
    | [.mark "..."] => some "__VA_ARGS__"
    | _ => none
  if args.dropLast.any isRest || names.eraseDups.length ≠ names.length then none
  return (names, args.getLast?.any isRest, rest)

/-- Whether the marks for joining and for strings stand where they may in a definition. -/
def marksFit (params : Option (List String)) (ts : List Token) : Bool :=
  ts.head? ≠ some (.mark "##") && ts.getLast? ≠ some (.mark "##") &&
    match params with
    | none => true
    | some params => (ts.zip (ts.drop 1 ++ [.empty])).all fun (t, next) =>
        t ≠ .mark "#" || match next with
          | .word w => params.contains w || w = "__VA_OPT__"
          | _ => false

def define? (l : Lexed) (ts : List Lexeme) : Option Lexed :=
  match ts with
  | [] => none
  | t :: rest =>
    match t.token with
    | .word w => do
      if w = "defined" || w.startsWith "__has_include" || l.definitions.poisoned.contains w then none
      let isFunction := rest.head?.any fun t => t.token = .mark "(" && !t.spaced
      let (params, isVariadic, body) ←
        if isFunction then (parameters? rest.tail).map fun (ps, v, body) => (some ps, v, body)
        else some (none, false, rest)
      if !marksFit params (body.map (·.token)) then none
      return { l with definitions := l.definitions.define w { params, isVariadic, body } }
    | _ => none

/-- The name in brackets and quotes after a word of a pragma. -/
def bracketedText? : List Token → Option String
  | .mark "(" :: .text _ s :: .mark ")" :: _ => some s
  | _ => none

/-- Carries out a pragma. Those for the parts of a source that come later stay among the tokens. -/
def pragma? (l : Lexed) (number : Nat) (ts : List Lexeme) : Option Lexed :=
  match ts.map Lexeme.token with
  | .word "GCC" :: .word "error" :: _ => none
  | .word "GCC" :: .word "poison" :: names =>
    let words := names.filterMap fun
      | .word w => some w
      | _ => none
    if words.length = names.length then
      some { l with definitions.poisoned := words ++ l.definitions.poisoned }
    else none
  | .word "push_macro" :: rest =>
    some ((bracketedText? rest).elim l fun w => { l with saved := (w, l.definitions.find? w) :: l.saved })
  | .word "pop_macro" :: rest =>
    match (bracketedText? rest).bind fun w => (l.saved.lookup w).map (w, ·) with
    | some (w, d) =>
      some { l with
        definitions.own := l.definitions.own.insert w d
        saved := l.saved.eraseP (·.1 == w) }
    | none => some l
  | _ =>
    let token : Token := .pragma (ts.map (·.token.spelling))
    some { l with pending := { token, line := number } :: l.pending }

/-- Whether tokens after the number of a line name a file, or nothing. -/
def namesFile : List Token → Bool
  | [] | .text .. :: _ => true
  | _ => false

/-- Carries out a directive that includes nothing. -/
def plain? (l : Lexed) (number : Nat) (name : String) (rest : List Lexeme) : Option Lexed :=
  match name with
  | "define" => do (← l.flush).define? rest
  | "undef" => do
    let w ← name? rest
    let l ← l.flush
    return { l with definitions := l.definitions.undefine w }
  | "pragma" => l.pragma? number rest
  | "warning" | "ident" | "sccs" | "assert" | "unassert" => some l
  | "line" => do
    let ts ← l.replaced rest
    match ts.map Lexeme.token with
    | .number s :: file =>
      if s.all Char.isDigit && namesFile file then
        return { l with shift := (Literal.value 10 s.toList : Nat) - (number + 1 : Int) }
      else none
    | _ => none
  | _ => none

/-- Reads a line of a header or a line that is no directive. -/
def headerLine (l : Lexed) (number : Nat) (cs : List Char) : Option Lexed :=
  match l.lex number cs with
  | [] => some l
  | t :: rest =>
    if t.token ≠ .mark "#" then
      if l.isRead then
        some { l with pending := rest.reverse ++ { t with spaced := true } :: l.pending }
      else some l
    else match rest with
      | [] => some l
      | u :: rest =>
        match u.token with
        | .word name =>
          match l.conditional? name rest with
          | some result => result
          | none => if l.isRead then l.plain? number name rest else some l
        | .number s =>
          let isMarker := s.all Char.isDigit && namesFile (rest.map Lexeme.token)
          if !l.isRead || isMarker then some l else none
        | _ => if l.isRead then none else some l

/-- Includes a header, after the headers that it is made of. The fuel bounds how deep they are
nested. -/
def include? (fuel : Nat) (l : Lexed) (name : String) : Option Lexed := do
  let h ← if l.dialect.hasHeaders then Header.ofName? name else none
  if l.included.contains name && name ≠ "assert.h" then return l
  let l := { l with included := name :: l.included }
  let l ← match fuel with
    | 0 => none
    | fuel + 1 => h.includes.foldlM (fun l part => include? fuel l part) l
  h.lines.foldlM (fun l s => headerLine l 0 s.toList) l

def headerName? (l : Lexed) (ts : List Lexeme) (cs : List Char) : Option String :=
  match cs.dropWhile Token.isGap with
  | '<' :: file => if file.contains '>' then some (String.ofList (file.takeWhile (· ≠ '>'))) else none
  | '"' :: file => if file.contains '"' then some (String.ofList (file.takeWhile (· ≠ '"'))) else none
  | _ => do
    match ← l.replaced ts with
    | t :: rest =>
      match t.token with
      | .text _ s => some s
      | .mark "<" =>
        let inside := rest.takeWhile (·.token ≠ .mark ">")
        if inside.length < rest.length then some (spelled inside) else none
      | _ => none
    | [] => none

def line (l : Lexed) (line : Line) : Option Lexed :=
  match l.lex line.number line.chars with
  | t :: u :: rest =>
    if t.token = .mark "#" && l.isRead && ["include", "include_next", "import"].any (.word · = u.token)
    then do
      let cs := line.chars.dropWhile Token.isGap
      let cs := (cs.drop (if cs.head? = some '%' then 2 else 1)).dropWhile Token.isGap
      let name ← l.headerName? rest (cs.dropWhile Token.isNameChar)
      include? 8 (← l.flush) name
    else l.headerLine line.number line.chars
  | _ => l.headerLine line.number line.chars

def start (d : Dialect) : Definitions :=
  let one (key text : String) (ds : Definitions) : Definitions :=
    ds.define key { body := Token.ofLine [] 0 text.toList }
  let ds : Definitions := {}
  if d.isPlus then
    one "__cplusplus" "201703L" (one "_GNU_SOURCE" "1" (one "linux" "1" (one "unix" "1"
      (one "__EXCEPTIONS" "1" (one "__GNUG__" "12" ds)))))
  else
    let ds := if 199409 ≤ d.version then one "__STDC_VERSION__" s!"{d.version}L" ds else ds
    if d.isGnu then one "linux" "1" (one "unix" "1" ds) else one "__STRICT_ANSI__" "1" ds

/-- Reads a source. A condition that is not closed is refused. -/
def ofSource? (d : Dialect) (source : String) : Option Lexed := do
  let lines ← Line.ofSource? d.hasTrigraphs source
  let l ← lines.foldlM line ({ dialect := d, definitions := start d } : Lexed)
  if !l.branches.isEmpty then none
  let l ← l.flush
  return { l with tokens := l.tokens.reverse }

end Lexed

end LoopNest.Compiler
