import LoopNest.Toml.Draft
import LoopNest.Toml.Scalar

/-!
# Reading TOML documents

`Document.read?` reads a whole text into a table and the list of its keys in the order in which
they stand in the text.
-/

namespace LoopNest.Toml

/-- A document: its table, and its keys in order. -/
structure Document where
  root : Value
  keys : List Key
deriving Inhabited

/-- What follows blanks, line breaks and comments. -/
def skipGap : Nat → List Char → List Char
  | 0, cs => cs
  | _ + 1, [] => []
  | fuel + 1, c :: cs =>
    if isBlank c || isNewline c then skipGap fuel cs
    else if c = '#' then skipGap fuel (cs.dropWhile fun c => !isNewline c)
    else c :: cs

mutual
/-- Reads the value of a key. The items of an array have the key of the array. The fuel bounds the
number of steps. -/
def value (fuel : Nat) (d : Draft) (key : String) (inArray : Bool) (cs : List Char) :
    Option (Value × Draft × List Char) :=
  match fuel with
  | 0 => none
  | fuel + 1 =>
    match skipBlank cs with
    | '[' :: rest => do
      let (items, d, rest) ← items fuel (d.setArray key true) key rest
      return (.array items, d, rest)
    | '\x7b' :: rest => do
      let outer := d.context
      let path := d.context ++ [key]
      let d ← (d.markImplicit path).enter path inArray
      let (entries, d, rest) ← inlineEntries fuel d path true rest
      return (.table entries, { d with context := outer }, rest)
    | cs => do
      let (v, rest) ← scalar? cs
      return (v, d, rest)

/-- Reads the items of an array up to its closing bracket. -/
def items (fuel : Nat) (d : Draft) (key : String) (cs : List Char) :
    Option (List Value × Draft × List Char) :=
  match fuel with
  | 0 => none
  | fuel + 1 =>
    match skipGap cs.length cs with
    | ']' :: rest => some ([], d, rest)
    | cs => do
      let (v, d, rest) ← value fuel d key true cs
      match skipGap rest.length rest with
      | ',' :: rest =>
        let (vs, d, rest) ← items fuel d key rest
        return (v :: vs, d, rest)
      | ']' :: rest => return ([v], d, rest)
      | _ => none

/-- Reads the entries of a table between braces, which is at the given path. Only the first
position may be empty. The result has each value under the last part of its key. -/
def inlineEntries (fuel : Nat) (d : Draft) (path : Key) (first : Bool) (cs : List Char) :
    Option (List (String × Value) × Draft × List Char) :=
  match fuel with
  | 0 => none
  | fuel + 1 =>
    match skipBlank cs with
    | '\x7d' :: rest => if first then some ([], d, rest) else none
    | cs => do
      let (key, rest) ← key? '=' cs
      let last ← key.getLast?
      let d ← { d with context := path }.enterImplicit key.dropLast
      let d := d.note (d.context ++ [last])
      let (v, d, rest) ← value fuel d last false rest
      let d ← d.put last v
      let d := d.setArray last (match v with | .array _ => true | _ => false)
      match skipBlank rest with
      | ',' :: rest =>
        let (entries, d, rest) ← inlineEntries fuel d path false rest
        return (if (entries.lookup last).isSome then entries else (last, v) :: entries, d, rest)
      | '\x7d' :: rest => return ([(last, v)], { d with context := path }, rest)
      | _ => none
end

/-- What follows the end of a line, where only blanks and a comment may stand. -/
def lineEnd? (cs : List Char) : Option (List Char) :=
  match skipBlank cs with
  | [] => some []
  | c :: rest =>
    if isNewline c then some rest
    else if c = '#' then some (rest.dropWhile fun c => !isNewline c)
    else none

/-- A header, up to the end of its line. -/
def header? (d : Draft) (more : Bool) (cs : List Char) : Option (Draft × List Char) := do
  let (path, rest) ← key? ']' cs
  let rest ← if more then skipChar ']' rest else some rest
  let d ← d.enter path more
  return ((d.setArray "" false).note path, ← lineEnd? rest)

/-- A key with its value, up to the end of its line. -/
def entry? (fuel : Nat) (d : Draft) (cs : List Char) : Option (Draft × List Char) := do
  let outer := d.context
  let (key, rest) ← key? '=' cs
  let last ← key.getLast?
  let d ← d.enterImplicit key.dropLast
  let d := d.note (d.context ++ [last])
  let (v, d, rest) ← value fuel d last false rest
  let d ← d.put last v
  let d := d.setArray last (match v with | .array _ => true | _ => false)
  return ({ d with context := outer }, ← lineEnd? rest)

/-- Reads headers and entries to the end of the text. -/
def body : Nat → Draft → List Char → Option Draft
  | 0, _, _ => none
  | fuel + 1, d, cs =>
    match skipGap cs.length cs with
    | [] => some d
    | '[' :: '[' :: rest => do
      let (d, rest) ← header? d true rest
      body fuel d rest
    | '[' :: rest => do
      let (d, rest) ← header? d false rest
      body fuel d rest
    | cs => do
      let (d, rest) ← entry? (2 * cs.length + 4) d cs
      body fuel d rest

/-- Whether every character may stand in a document: no control characters but tabs and line
breaks, a carriage return only in front of a line feed, and no replacement character. -/
def isClean : List Char → Bool
  | [] => true
  | '\r' :: cs => cs.head? == some '\n' && isClean cs
  | c :: cs =>
    c.toNat ≠ 0x7f && c.toNat ≠ 0xfffd && (0x20 ≤ c.toNat || c == '\t' || c == '\n') && isClean cs

/-- A text without the mark of the byte order at its front. -/
def dropByteOrderMark : List Char → List Char
  | c :: cs => if c.toNat = 0xfeff then cs else c :: cs
  | [] => []

/-- Reads a document; there is none if the text is malformed. -/
def Document.read? (s : String) : Option Document := do
  let cs := dropByteOrderMark s.toList
  if isClean cs then
    let d ← body (cs.length + 1) {} cs
    return { root := d.root, keys := d.order }
  else none

end LoopNest.Toml
