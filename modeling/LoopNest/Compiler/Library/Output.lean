import LoopNest.Compiler.Library.Basic
import LoopNest.Compiler.Printed

/-!
# Formatted output

Functions that write values as a format says. What is written to files is not kept, but counted.
-/

namespace LoopNest.Compiler.Library

/-- The next arguments behind a list of arguments in memory. -/
def nextArguments (list : Int) : List Cell → Run (List Value)
  | [] => pure []
  | c :: cs => do
    let (size, align) := match c with
      | .fraction .extended => (16, 16)
      | _ => (8, 8)
    let place ← Run.integer (Run.load Cell.pointer (list + 8))
    let place := roundUp place.toNat align
    let v ← Run.load c place
    Run.store Cell.pointer (list + 8) (.integer (place + size : Nat))
    return v :: (← nextArguments list cs)

/-- Where arguments come from: a list of values, or a list of arguments in memory. -/
inductive Source where
  | values (vs : List Value)
  | memory (list : Int)

def Source.take (cells : List Cell) : Source → Run (List Value × Source)
  | .values vs =>
    pure ((cells.zip (vs ++ cells.map fun _ => .integer 0)).map fun (c, v) => v.convert c,
      .values (vs.drop cells.length))
  | .memory list => do return (← nextArguments list cells, .memory list)

/-- The text of a string, of which as many bytes are written as the precision says. -/
def stringText (c : Conversion) (address : Int) : Run (List Char) := do
  let bytes ← if address = 0 then pure (bytesOf "(null)".toList)
    else match c.precision with
      | some n => stringWithin address n
      | none => stringAt address
  return c.padded false [] (charsOf bytes)

def argumentText (written : Nat) (c : Conversion) (args : List Value) : Run (List Char) := do
  let (c, args) := c.settled args
  match c.letter, args with
  | '%', _ => return ['%']
  | 'c', [.integer v] => return c.padded false [] [Char.ofNat (Integer.unsignedChar.wrap v).toNat]
  | 's', [.integer a] => stringText c a
  | 'p', [.integer a] =>
    let text := if a = 0 then "(nil)".toList else ['0', 'x'] ++ Nat.toDigits 16 a.toNat
    return c.padded false [] text
  | 'n', [.integer a] =>
    Run.store (.integer .int) a (.integer written)
    return []
  | _, [.integer v] => return c.integerText v
  | _, [.fraction v] => return c.fractionText v
  | letter, _ => return ['%', letter]

/-- The text of the pieces of a format, last character first. -/
def piecesText (done : List Char) (source : Source) : List Piece → Run (List Char)
  | [] => pure done
  | .text c :: rest => piecesText (c :: done) source rest
  | .conversion c :: rest => do
    let (args, source) ← source.take c.cells
    let text ← argumentText done.length c args
    piecesText (text.reverse ++ done) source rest

def formatted (format : Int) (source : Source) : Run (List UInt8) := do
  let pieces := Piece.ofFormat (charsOf (← stringAt format))
  return bytesOf (← piecesText [] source pieces).reverse

/-- Writes bytes to a file, which only counts them. -/
def printed (r : Run (List UInt8)) : Run Value := do given (← r).length

/-- Writes a string of at most some bytes, with the zero at its end. -/
def storeWithin (address size : Int) (bytes : List UInt8) : Run Value := do
  if 0 < size then storeString address (bytes.take (size.toNat - 1))
  given bytes.length

def storeAll (address : Int) (bytes : List UInt8) : Run Value := do
  storeString address bytes
  given bytes.length

def output : List (String × Handler) :=
  [("printf", fun _ args => match args with
      | .integer f :: rest => printed (formatted f (.values rest))
      | _ => Run.fault),
    ("fprintf", fun _ args => match args with
      | _ :: .integer f :: rest => printed (formatted f (.values rest))
      | _ => Run.fault),
    ("dprintf", fun _ args => match args with
      | _ :: .integer f :: rest => printed (formatted f (.values rest))
      | _ => Run.fault),
    ("sprintf", fun _ args => match args with
      | .integer a :: .integer f :: rest => do storeAll a (← formatted f (.values rest))
      | _ => Run.fault),
    ("snprintf", fun _ args => match args with
      | .integer a :: .integer n :: .integer f :: rest => do
        storeWithin a n (← formatted f (.values rest))
      | _ => Run.fault),
    ("vprintf", ofIntegers fun
      | [f, list] => printed (formatted f (.memory list))
      | _ => Run.fault),
    ("vfprintf", ofIntegers fun
      | [_, f, list] => printed (formatted f (.memory list))
      | _ => Run.fault),
    ("vsprintf", ofIntegers fun
      | [a, f, list] => do storeAll a (← formatted f (.memory list))
      | _ => Run.fault),
    ("vsnprintf", ofIntegers fun
      | [a, n, f, list] => do storeWithin a n (← formatted f (.memory list))
      | _ => Run.fault),
    ("puts", ofIntegers fun
      | [a] => do given ((← stringAt a).length + 1)
      | _ => Run.fault),
    ("fputs", ofIntegers fun
      | [a, _] => do
        let _ ← stringAt a
        given 1
      | _ => Run.fault),
    ("fwrite", ofIntegers fun
      | [_, size, n, _] => given (if size = 0 then 0 else n)
      | _ => Run.fault),
    ("putchar", character), ("fputc", character), ("putc", character)]
where
  character : Handler := pureInteger Integer.unsignedChar.wrap

end LoopNest.Compiler.Library
