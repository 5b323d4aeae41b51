import LoopNest.Digest.Bytes

/-!
# Paths and texts that may not be decodable

A raw text is given by its bytes, which need not be the encoding of any characters. It is shown
with a replacement character for each byte that is not part of a character.

A path is a raw text, cut into steps at its slashes. Relative paths start from the working directory,
whose list of steps is empty; absolute ones start from the step `/`.
-/

namespace LoopNest

/-! ## Raw texts -/

structure RawText where
  bytes : List UInt8
deriving DecidableEq, Repr, Inhabited

namespace RawText

def ofText (s : String) : RawText := ⟨Bytes.ofText s⟩

instance : Coe String RawText := ⟨ofText⟩

def append (a b : RawText) : RawText := ⟨a.bytes ++ b.bytes⟩

instance : Append RawText := ⟨append⟩

/-- Whether there are no bytes. -/
def isEmpty (t : RawText) : Bool := t.bytes.isEmpty

def size (t : RawText) : Nat := t.bytes.length

/-- The pieces between the occurrences of a byte, `piece` being the reversed piece in progress. -/
def splitFrom (sep : UInt8) (piece : List UInt8) : List UInt8 → List RawText
  | [] => [⟨piece.reverse⟩]
  | b :: bs =>
    if b = sep then ⟨piece.reverse⟩ :: splitFrom sep [] bs else splitFrom sep (b :: piece) bs

/-- The pieces between the occurrences of a byte. -/
def splitAt (sep : UInt8) (t : RawText) : List RawText := splitFrom sep [] t.bytes

/-- The bits of a character that a byte after the first one holds. -/
def continuation? (b : UInt8) : Option Nat :=
  if b.toNat / 64 = 2 then some (b.toNat % 64) else none

/-- The character whose highest bits are `head` and whose other bits are in exactly `count` more
bytes. A character below `least` is encoded with fewer bytes. -/
def scalar? (least head count : Nat) (tail : List UInt8) : Option Char := do
  let n ← (tail.take count).foldlM (fun n b => do return 64 * n + (← continuation? b)) head
  if count ≤ tail.length ∧ least ≤ n ∧ n.isValidChar then some (Char.ofNat n) else none

/-- The character at the front, and how many bytes follow its first one. -/
def front? (b : UInt8) (rest : List UInt8) : Option (Char × Nat) :=
  let n := b.toNat
  if n < 0x80 then some (Char.ofNat n, 0)
  else if n < 0xc0 then none
  else if n < 0xe0 then (scalar? 0x80 (n % 32) 1 rest).map (·, 1)
  else if n < 0xf0 then (scalar? 0x800 (n % 16) 2 rest).map (·, 2)
  else if n < 0xf8 then (scalar? 0x10000 (n % 8) 3 rest).map (·, 3)
  else none

/-- The characters of some bytes, the first `skip` of which belong to the character before. -/
def charsFrom (skip : Nat) : List UInt8 → List Char
  | [] => []
  | b :: bs =>
    match skip with
    | skip + 1 => charsFrom skip bs
    | 0 =>
      match front? b bs with
      | some (c, more) => c :: charsFrom more bs
      | none => '\ufffd' :: charsFrom 0 bs

def toText (t : RawText) : String := String.ofList (charsFrom 0 t.bytes)

end RawText

/-! ## Paths -/

/-- Where a file is, in words. -/
abbrev Path := RawText

namespace Path

/-- The step that stays where it is. -/
def here : Path := "."

def up : Path := ".."

def root : Path := "/"

def pieces (path : Path) : List Path := RawText.splitAt 0x2f path

/-- The steps of a path, without empty ones and without dots. -/
def steps (path : Path) : List Path := (pieces path).filter fun s => !s.isEmpty && s ≠ here

def isAbsolute (path : Path) : Bool := path.bytes.head? == some 0x2f

/-- The last piece of a path, which is empty if the path ends with a slash. -/
def lastPiece (path : Path) : Path := (pieces path).getLastD ""

/-- Whether only a directory can be meant: the path ends with a slash or a dot. -/
def namesDirectory (path : Path) : Bool := (lastPiece path).isEmpty || lastPiece path == here

def joinSteps : List Path → Path
  | [] => ""
  | [s] => s
  | s :: rest => s ++ root ++ joinSteps rest

/-- Cancels each step against the step up that follows it; `done` holds the reversed result so
far. At the root there is nothing above. -/
def cancel (absolute : Bool) (done : List Path) : List Path → List Path
  | [] => done.reverse
  | s :: rest =>
    if s ≠ up then cancel absolute (s :: done) rest
    else match done with
      | [] => cancel absolute (if absolute then [] else [s]) rest
      | d :: above => cancel absolute (if d = up then s :: d :: above else above) rest

/-- The shortest path of the same meaning. -/
def clean (path : Path) : Path :=
  let rest := joinSteps (cancel (isAbsolute path) [] (steps path))
  if isAbsolute path then root ++ rest else if rest.isEmpty then here else rest

/-- The path of a file in a directory; an empty directory is the working directory. -/
def join (dir file : Path) : Path := clean (if dir.isEmpty then file else dir ++ root ++ file)

/-- The directory of a path: all before its last piece. -/
def dir (path : Path) : Path :=
  clean (joinSteps ((pieces path).dropLast ++ [("" : Path)]))

end Path

end LoopNest
