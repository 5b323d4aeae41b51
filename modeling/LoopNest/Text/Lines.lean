import LoopNest.Data.Logarithm

/-!
# Lines and words

A text is a list of lines, each ended by a line feed, and a list of words with white space between
them. White space is what the Unicode property says. Numbering and indenting keep the lines of a text
as they are and put something in front of them: a line number of one width for the whole text, or an
indentation in front of the lines that are not blank.
-/

namespace LoopNest.Text

/-- Cuts at every line feed, `line` being the reversed line in progress. There is always a last
piece, which is empty when the text ends with a line feed. -/
def piecesFrom (line : List Char) : List Char → List (List Char)
  | [] => [line.reverse]
  | '\n' :: cs => line.reverse :: piecesFrom [] cs
  | c :: cs => piecesFrom (c :: line) cs

/-- The pieces between line feeds. -/
def pieces (s : String) : List String := (piecesFrom [] s.toList).map String.ofList

/-- The lines of a text: the pieces between line feeds, without the empty piece after a final
line feed. -/
def lines (s : String) : List String :=
  let ps := pieces s
  if ps.getLast? == some "" then ps.dropLast else ps

/-- The text made of the given lines, each ended by a line feed. -/
def unlines (ls : List String) : String := String.join (ls.map (· ++ "\n"))

/-! ## White space -/

/-- Whether a character is white space. -/
def isBlank (c : Char) : Bool :=
  let n := c.toNat
  (9 ≤ n && n ≤ 13) || n == 0x20 || n == 0x85 || n == 0xa0 || n == 0x1680
    || (0x2000 ≤ n && n ≤ 0x200a) || n == 0x2028 || n == 0x2029 || n == 0x202f
    || n == 0x205f || n == 0x3000

/-- Whether a text consists of white space only. -/
def isBlankText (s : String) : Bool := s.toList.all isBlank

/-- The characters of a text without white space at either end. -/
def trimmed (cs : List Char) : List Char :=
  ((cs.dropWhile isBlank).reverse.dropWhile isBlank).reverse

/-- A text without white space at either end. -/
def trim (s : String) : String := String.ofList (trimmed s.toList)

/-- The maximal runs of characters that are not white space, `word` being the reversed run in
progress. -/
def fieldsFrom (word : List Char) : List Char → List (List Char)
  | [] => if word.isEmpty then [] else [word.reverse]
  | c :: cs =>
    if isBlank c then
      if word.isEmpty then fieldsFrom [] cs else word.reverse :: fieldsFrom [] cs
    else fieldsFrom (c :: word) cs

/-- The words of a text, that is its maximal runs of characters that are not white space. -/
def fields (s : String) : List String := (fieldsFrom [] s.toList).map String.ofList

/-! ## Numbers and indentation -/

/-- Cuts after every line feed, so that the pieces concatenate to the text. `line` is the reversed
piece in progress. -/
def keptLinesFrom (line : List Char) : List Char → List (List Char)
  | [] => if line.isEmpty then [] else [line.reverse]
  | '\n' :: cs => ('\n' :: line).reverse :: keptLinesFrom [] cs
  | c :: cs => keptLinesFrom (c :: line) cs

/-- The lines of a text, each with its line feed; the last one may have none. -/
def keptLines (s : String) : List String := (keptLinesFrom [] s.toList).map String.ofList

/-- A number in decimal, padded with zeros to a width. -/
def padded (width n : Nat) : String :=
  let ds := toString n
  "".pushn '0' (width - ds.length) ++ ds

/-- Puts the numbers from `i` on in front of lines. -/
def numberFrom (width i : Nat) : List String → List String
  | [] => []
  | l :: ls => (padded width i ++ " " ++ l) :: numberFrom width (i + 1) ls

/-- The width of the numbers of some lines, from the logarithm of how many they are. -/
def numberWidth (count : Nat) : Nat :=
  (Logarithm.decimal count.toUInt64.toFloat).toUInt64.toNat + 1

/-- Puts its number in front of every line. All numbers are as wide as the number of lines. -/
def number (s : String) : String :=
  let ls := keptLines s
  String.join (numberFrom (numberWidth ls.length) 1 ls)

/-- Indents the lines from the position `skip` on that are not blank; `n` lines came before. -/
def indentFrom (skip : Int) (indentation : String) (n : Int) : List String → List String
  | [] => []
  | l :: ls =>
    (if skip ≤ n && !isBlankText l then indentation ++ l else l)
      :: indentFrom skip indentation (n + 1) ls

/-- Indents every line that is not blank, except the first `skip` lines. -/
def indentSkip (skip : Int) (indentation s : String) : String :=
  String.join (indentFrom skip indentation 0 (keptLines s))

/-- Indents every line that is not blank by a tab. -/
def indent (s : String) : String := indentSkip 0 "\t" s

end LoopNest.Text
