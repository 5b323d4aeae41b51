/-!
# Logical lines of C sources

Before anything else is looked at, a source is cut into logical lines: lines that end in a backslash
are continued, and comments become blanks.
-/

namespace LoopNest.Compiler

/-- Where a character of a source stands. -/
inductive Region where
  | code
  | lineComment
  | blockComment
  | literal (quote : Char)
deriving DecidableEq, Repr, Inhabited

structure Line where
  number : Nat
  chars : List Char
deriving Inhabited

namespace Line

/-- The character that two question marks and a character stand for. -/
def trigraphs : List (Char × Char) :=
  [('=', '#'), ('/', '\\'), ('\'', '^'), ('(', '['), (')', ']'), ('!', '|'), ('<', '\x7b'),
    ('>', '\x7d'), ('-', '~')]

/-- A source with every trigraph replaced; `done` is what comes before, last character first. -/
def withoutTrigraphs (done : List Char) : List Char → List Char
  | '?' :: '?' :: c :: cs =>
    match trigraphs.lookup c with
    | some d => withoutTrigraphs (d :: done) cs
    | none => withoutTrigraphs ('?' :: done) ('?' :: c :: cs)
  | c :: cs => withoutTrigraphs (c :: done) cs
  | [] => done.reverse
termination_by cs => cs.length

def regionAfter (c : Char) : Region := if c = '"' ∨ c = '\'' then .literal c else .code

/-- Cuts a source into lines. `start` is the number of the line that is being put together, and
`number` the number of the line of the next character. A comment that is not closed is refused. -/
def cut (region : Region) (start number : Nat) (current : List Char) (done : List Line) :
    List Char → Option (List Line)
  | [] => if region = .blockComment then none else some (⟨start, current.reverse⟩ :: done).reverse
  | '\\' :: '\n' :: cs | '\\' :: '\r' :: '\n' :: cs => cut region start (number + 1) current done cs
  | '\n' :: cs =>
    if region = .blockComment then cut region start (number + 1) current done cs
    else cut .code (number + 1) (number + 1) [] (⟨start, current.reverse⟩ :: done) cs
  | c :: cs =>
    match region with
    | .lineComment => cut region start number current done cs
    | .blockComment =>
      match c, cs with
      | '*', '/' :: cs => cut .code start number (' ' :: current) done cs
      | _, cs => cut region start number current done cs
    | .literal quote =>
      match c, cs with
      | '\\', '\n' :: cs => cut region start (number + 1) current done cs
      | '\\', d :: cs => cut region start number (d :: c :: current) done cs
      | c, cs => cut (if c = quote then .code else region) start number (c :: current) done cs
    | .code =>
      match c, cs with
      | '/', '*' :: cs => cut .blockComment start number current done cs
      | '/', '/' :: cs => cut .lineComment start number current done cs
      | c, cs => cut (regionAfter c) start number (c :: current) done cs
termination_by cs => cs.length

/-- The logical lines of a source. There are none if a comment is not closed. -/
def ofSource? (replacesTrigraphs : Bool) (source : String) : Option (List Line) :=
  let cs := source.toList
  cut .code 1 1 [] [] (if replacesTrigraphs then withoutTrigraphs [] cs else cs)

end Line

end LoopNest.Compiler
