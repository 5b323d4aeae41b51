/-!
# Tokens of C sources

A logical line of a source is cut into names, numbers, literals and marks. A token remembers the
line it stands on, whether a blank is in front of it, and the names that must not be replaced in it
again.
-/

namespace LoopNest.Compiler

inductive Token where
  /-- A name or a keyword. -/
  | word (s : String)
  /-- Digits with whatever letters, points and signs are read with them. -/
  | number (s : String)
  /-- A string, by the letters in front of its quotes and what stands between them. -/
  | text (encoding inside : String)
  /-- A character, by the letters in front of its quotes and what stands between them. -/
  | character (encoding inside : String)
  /-- An operator or a sign of punctuation. -/
  | mark (s : String)
  /-- A character that is no part of the language. -/
  | stray (c : Char)
  /-- What an empty argument leaves beside a mark that joins tokens. -/
  | empty
  | pragma (words : List String)
deriving DecidableEq, Repr, Inhabited

structure Lexeme where
  token : Token
  line : Nat := 0
  /-- A blank is in front of the token. -/
  spaced : Bool := false
  /-- The names that are not replaced if the token is one of them. -/
  painted : List String := []
deriving DecidableEq, Repr, Inhabited

namespace Token

/-- The characters beyond ASCII that names may have. -/
def nameRanges : List (Nat × Nat) := [
  (0xa8, 0xa8), (0xaa, 0xaa), (0xad, 0xad), (0xaf, 0xaf), (0xb2, 0xb5), (0xb7, 0xba), (0xbc, 0xbe),
  (0xc0, 0xd6), (0xd8, 0xf6), (0xf8, 0x167f), (0x1681, 0x180d), (0x180f, 0x1fff), (0x200b, 0x200d),
  (0x202a, 0x202e), (0x203f, 0x2040), (0x2054, 0x2054), (0x2060, 0x218f), (0x2460, 0x24ff),
  (0x2776, 0x2793), (0x2c00, 0x2dff), (0x2e80, 0x2fff), (0x3004, 0x3007), (0x3021, 0x302f),
  (0x3031, 0xd7ff), (0xf900, 0xfdcf), (0xfdf0, 0xfe44), (0xfe47, 0xfffd), (0x10000, 0x1fffd),
  (0x20000, 0x2fffd), (0x30000, 0x3fffd), (0x40000, 0x4fffd), (0x50000, 0x5fffd),
  (0x60000, 0x6fffd), (0x70000, 0x7fffd), (0x80000, 0x8fffd), (0x90000, 0x9fffd),
  (0xa0000, 0xafffd), (0xb0000, 0xbfffd), (0xc0000, 0xcfffd), (0xd0000, 0xdfffd),
  (0xe0000, 0xefffd)]

/-- The characters that names may have but not start with, beyond ASCII. -/
def markRanges : List (Nat × Nat) :=
  [(0x300, 0x36f), (0x1dc0, 0x1dff), (0x20d0, 0x20ff), (0xfe20, 0xfe2f)]

def within (ranges : List (Nat × Nat)) (c : Char) : Bool :=
  ranges.any fun (first, last) => first ≤ c.toNat && c.toNat ≤ last

/-- Whether a character may stand in a name. -/
def isNameChar (c : Char) : Bool :=
  c.isAlphanum || c == '_' || c == '$' || (127 < c.toNat && within nameRanges c)

def isNameStart (c : Char) : Bool := isNameChar c && !c.isDigit && !within markRanges c

/-- The operators and signs of punctuation, longer ones first, with the way they are written in the
rest of this library. -/
def marks : List (List Char × String) :=
  [("%:%:", "##"), ("...", "..."), ("<<=", "<<="), (">>=", ">>="), ("->", "->"), ("++", "++"),
    ("--", "--"), ("<<", "<<"), (">>", ">>"), ("<=", "<="), (">=", ">="), ("==", "=="),
    ("!=", "!="), ("&&", "&&"), ("||", "||"), ("*=", "*="), ("/=", "/="), ("%=", "%="),
    ("+=", "+="), ("-=", "-="), ("&=", "&="), ("^=", "^="), ("|=", "|="), ("##", "##"),
    ("<:", "["), (":>", "]"), ("<%", "\x7b"), ("%>", "\x7d"), ("%:", "#"), ("[", "["), ("]", "]"),
    ("(", "("), (")", ")"), ("\x7b", "\x7b"), ("\x7d", "\x7d"), (".", "."), ("&", "&"), ("*", "*"),
    ("+", "+"), ("-", "-"), ("~", "~"), ("!", "!"), ("/", "/"), ("%", "%"), ("<", "<"), (">", ">"),
    ("^", "^"), ("|", "|"), ("?", "?"), (":", ":"), (";", ";"), ("=", "="), (",", ","),
    ("#", "#")].map fun (written, meant) => (written.toList, meant)

/-- Blanks that end no line. -/
def isGap (c : Char) : Bool := c == ' ' || c == '\t' || c == '\r' || [0, 11, 12].contains c.toNat

/-- The characters of a number from its second one on, last one first: an exponent may have a
sign. -/
def numberTail (tail : List Char) : List Char → List Char × List Char
  | [] => (tail, [])
  | c :: cs =>
    if (c == '+' || c == '-') && tail.head?.any ['e', 'E', 'p', 'P'].contains then
      numberTail (c :: tail) cs
    else if isNameChar c || c == '.' then numberTail (c :: tail) cs
    else (tail, c :: cs)

/-- The characters of a literal that started with a quote, last one first, and what follows its
end. -/
def untilQuote (quote : Char) (inside : List Char) : List Char → Option (List Char × List Char)
  | [] => none
  | '\\' :: c :: cs => untilQuote quote (c :: '\\' :: inside) cs
  | c :: cs => if c = quote then some (inside, cs) else untilQuote quote (c :: inside) cs

/-- The character with a number that is written with digits of base sixteen, if names may have
it. -/
def escapedName? (digits : List Char) : Option Char :=
  let value (c : Char) : Nat := if c.isDigit then c.toNat - '0'.toNat else c.toLower.toNat - 'a'.toNat + 10
  let isHex (c : Char) : Bool := c.isDigit || ('a' ≤ c.toLower && c.toLower ≤ 'f')
  if !digits.all isHex then none
  else
    let c := Char.ofNat (digits.foldl (fun n d => 16 * n + value d) 0)
    if 127 < c.toNat && isNameChar c then some c else none

/-- The characters of a name from its second one on, last one first, and what follows them. -/
def nameTail (tail : List Char) : List Char → List Char × List Char
  | '\\' :: 'u' :: a :: b :: c :: d :: cs =>
    match escapedName? [a, b, c, d] with
    | some e => nameTail (e :: tail) cs
    | none => (tail, '\\' :: 'u' :: a :: b :: c :: d :: cs)
  | '\\' :: 'U' :: a :: b :: c :: d :: e :: f :: g :: h :: cs =>
    match escapedName? [a, b, c, d, e, f, g, h] with
    | some e => nameTail (e :: tail) cs
    | none => (tail, '\\' :: 'U' :: a :: b :: c :: d :: e :: f :: g :: h :: cs)
  | c :: cs => if isNameChar c then nameTail (c :: tail) cs else (tail, c :: cs)
  | [] => (tail, [])

/-- The token at the start of some characters that do not start with a blank, and what follows it.
`encodings` are the words that may stand in front of a literal. -/
def first (encodings : List String) (c : Char) (cs : List Char) : Token × List Char :=
  let literal (encoding : String) (quote : Char) (cs : List Char) : Option (Token × List Char) :=
    (untilQuote quote [] cs).map fun (inside, rest) =>
      let s := String.ofList inside.reverse
      (if quote = '"' then .text encoding s else .character encoding s, rest)
  if isNameStart c then
    let (tail, rest) := nameTail [c] cs
    let w := String.ofList tail.reverse
    match rest with
    | q :: after =>
      if (q == '"' || q == '\'') && encodings.contains w then
        (literal w q after).getD (.word w, rest)
      else (.word w, rest)
    | [] => (.word w, rest)
  else if c.isDigit || (c == '.' && cs.head?.any Char.isDigit) then
    let (tail, rest) := numberTail [c] cs
    (.number (String.ofList tail.reverse), rest)
  else if c == '"' || c == '\'' then (literal "" c cs).getD (.stray c, cs)
  else
    match marks.find? fun m => m.1.isPrefixOf (c :: cs) with
    | some (written, meant) => (.mark meant, (c :: cs).drop written.length)
    | none =>
      match nameTail [] (c :: cs) with
      | ([], _) => (.stray c, cs)
      | (name, rest) => (.word (String.ofList name.reverse), rest)

/-- The tokens of a line, last one first. The fuel bounds their number. -/
def scan (encodings : List String) (line fuel : Nat) (spaced : Bool) (done : List Lexeme)
    (cs : List Char) : List Lexeme :=
  match fuel, cs with
  | 0, _ | _, [] => done
  | fuel + 1, c :: cs =>
    if isGap c then scan encodings line fuel true done cs
    else
      let (token, rest) := first encodings c cs
      scan encodings line fuel false ({ token, line, spaced } :: done) rest

def ofLine (encodings : List String) (line : Nat) (cs : List Char) : List Lexeme :=
  (scan encodings line (cs.length + 1) false [] cs).reverse

def spelling : Token → String
  | .word s | .number s | .mark s => s
  | .text encoding s => encoding ++ "\"" ++ s ++ "\""
  | .character encoding s => encoding ++ "'" ++ s ++ "'"
  | .stray c => c.toString
  | .empty => ""
  | .pragma _ => ""

end Token

/-- How some tokens are written, with one blank wherever there are blanks between them. -/
def spelled (ts : List Lexeme) : String :=
  String.join ((ts.zipIdx).map fun (t, i) =>
    if t.spaced && 0 < i then " " ++ t.token.spelling else t.token.spelling)

end LoopNest.Compiler
