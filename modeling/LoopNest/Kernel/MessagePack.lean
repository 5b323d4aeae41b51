import LoopNest.Digest.Bytes

/-!
# MessagePack

Values as bytes: the first byte tells the type of a value and, for small ones, its size or the
value itself; larger sizes and numbers follow with the highest byte first.
-/

namespace LoopNest

inductive Pack where
  | nil
  | truth (b : Bool)
  | integer (n : Int)
  /-- A number that always takes four bytes. -/
  | word (n : UInt32)
  /-- A floating-point number, by its bytes. -/
  | real (data : List UInt8)
  /-- A text or a byte string. -/
  | text (data : List UInt8)
  | array (items : List Pack)
  | table (entries : List (Pack × Pack))
  /-- A value of an application's own type. -/
  | extension (data : List UInt8)
deriving Inhabited

namespace Pack

def ofText (s : String) : Pack := .text (Bytes.ofText s)

/-- A size after the marks for sizes of one, two and four bytes; a small size is part of the first
byte. Some types have no mark for one byte. -/
def sizeHead (fixed limit : Nat) (mark8 : Option UInt8) (mark16 mark32 : UInt8) (n : Nat) : List UInt8 :=
  if n < limit then [UInt8.ofNat (fixed + n)]
  else if mark8.isSome ∧ n < Nat.pow 2 8 then mark8.toList ++ Bytes.bigEndian 1 n
  else if n < Nat.pow 2 16 then mark16 :: Bytes.bigEndian 2 n
  else mark32 :: Bytes.bigEndian 4 n

/-- An integer in the shortest form. -/
def encodeInteger (n : Int) : List UInt8 :=
  if 0 ≤ n then
    let m := n.toNat
    if m < Nat.pow 2 7 then [UInt8.ofNat m]
    else if m < Nat.pow 2 8 then 0xcc :: Bytes.bigEndian 1 m
    else if m < Nat.pow 2 16 then 0xcd :: Bytes.bigEndian 2 m
    else if m < Nat.pow 2 32 then 0xce :: Bytes.bigEndian 4 m
    else 0xcf :: Bytes.bigEndian 8 m
  else
    let wrapped (bits : Nat) := (n % Nat.pow 2 bits).toNat
    if -32 ≤ n then [UInt8.ofNat (wrapped 8)]
    else if -0x80 ≤ n then 0xd0 :: Bytes.bigEndian 1 (wrapped 8)
    else if -0x8000 ≤ n then 0xd1 :: Bytes.bigEndian 2 (wrapped 16)
    else if -0x80000000 ≤ n then 0xd2 :: Bytes.bigEndian 4 (wrapped 32)
    else 0xd3 :: Bytes.bigEndian 8 (wrapped 64)

mutual
def encode : Pack → List UInt8
  | .nil => [0xc0]
  | .truth b => [if b then 0xc3 else 0xc2]
  | .integer n => encodeInteger n
  | .word n => 0xce :: Bytes.bigEndian 4 n.toNat
  | .real data => (if data.length = 4 then 0xca else 0xcb) :: data
  | .text data => sizeHead 0xa0 32 (some 0xd9) 0xda 0xdb data.length ++ data
  | .array items => sizeHead 0x90 16 none 0xdc 0xdd items.length ++ encodeAll items
  | .table entries => sizeHead 0x80 16 none 0xde 0xdf entries.length ++ encodeEntries entries
  | .extension data => sizeHead 0xc7 0 (some 0xc7) 0xc8 0xc9 (data.length - 1) ++ data

/-- The bytes of several values. -/
def encodeAll : List Pack → List UInt8
  | [] => []
  | v :: vs => v.encode ++ encodeAll vs

/-- The bytes of keys with their values. -/
def encodeEntries : List (Pack × Pack) → List UInt8
  | [] => []
  | (k, v) :: rest => k.encode ++ v.encode ++ encodeEntries rest
end

/-- A given number of bytes, and what follows. -/
def takeBytes (n : Nat) (bs : List UInt8) : Option (List UInt8 × List UInt8) :=
  if bs.length < n then none else some (bs.take n, bs.drop n)

/-- A number of a given number of bytes, and what follows. -/
def takeNat (n : Nat) (bs : List UInt8) : Option (Nat × List UInt8) := do
  let (ds, rest) ← takeBytes n bs
  return (Bytes.toNat ds, rest)

def toSigned (bits n : Nat) : Int := if n < Nat.pow 2 (bits - 1) then n else n - Nat.pow 2 bits

/-- An unsigned number of a given number of bytes, as a word. -/
def unsigned (count : Nat) (bs : List UInt8) : Option (Pack × List UInt8) := do
  let (n, rest) ← takeNat count bs
  return (.integer (toSigned 64 n), rest)

/-- A signed number of a given number of bytes. -/
def signed (count : Nat) (bs : List UInt8) : Option (Pack × List UInt8) := do
  let (n, rest) ← takeNat count bs
  return (.integer (toSigned (8 * count) n), rest)

/-- A text whose size takes a given number of bytes. -/
def sizedText (count : Nat) (bs : List UInt8) : Option (Pack × List UInt8) := do
  let (n, rest) ← takeNat count bs
  let (ds, rest) ← takeBytes n rest
  return (.text ds, rest)

/-- A value of an application's own type, with a byte for the type. -/
def typed (n : Nat) (bs : List UInt8) : Option (Pack × List UInt8) := do
  let (ds, rest) ← takeBytes (n + 1) bs
  return (.extension ds, rest)

mutual
/-- Reads a value. The fuel bounds the number of values. -/
def decode (fuel : Nat) (bs : List UInt8) : Option (Pack × List UInt8) :=
  match fuel, bs with
  | 0, _ | _, [] => none
  | fuel + 1, b :: rest =>
    let arrayOf (count : Nat) := do
      let (n, rest) ← takeNat count rest
      let (vs, rest) ← decodeMany fuel n rest
      return (.array vs, rest)
    let tableOf (count : Nat) := do
      let (n, rest) ← takeNat count rest
      let (es, rest) ← decodeEntries fuel n rest
      return (.table es, rest)
    let typedOf (count : Nat) := do
      let (n, rest) ← takeNat count rest
      typed n rest
    let code := b.toNat
    if code < 0x80 then some (.integer code, rest)
    else if code < 0x90 then do
      let (es, rest) ← decodeEntries fuel (code - 0x80) rest
      return (.table es, rest)
    else if code < 0xa0 then do
      let (vs, rest) ← decodeMany fuel (code - 0x90) rest
      return (.array vs, rest)
    else if code < 0xc0 then do
      let (ds, rest) ← takeBytes (code - 0xa0) rest
      return (.text ds, rest)
    else if 0xe0 ≤ code then some (.integer (code - 256), rest)
    else match code with
      | 0xc0 => some (.nil, rest)
      | 0xc2 => some (.truth false, rest)
      | 0xc3 => some (.truth true, rest)
      | 0xc4 => sizedText 1 rest
      | 0xc5 => sizedText 2 rest
      | 0xc6 => sizedText 4 rest
      | 0xc7 => typedOf 1
      | 0xc8 => typedOf 2
      | 0xc9 => typedOf 4
      | 0xca => do
        let (ds, rest) ← takeBytes 4 rest
        return (.real ds, rest)
      | 0xcb => do
        let (ds, rest) ← takeBytes 8 rest
        return (.real ds, rest)
      | 0xcc => unsigned 1 rest
      | 0xcd => unsigned 2 rest
      | 0xce => unsigned 4 rest
      | 0xcf => unsigned 8 rest
      | 0xd0 => signed 1 rest
      | 0xd1 => signed 2 rest
      | 0xd2 => signed 4 rest
      | 0xd3 => signed 8 rest
      | 0xd4 => typed 1 rest
      | 0xd5 => typed 2 rest
      | 0xd6 => typed 4 rest
      | 0xd7 => typed 8 rest
      | 0xd8 => typed 16 rest
      | 0xd9 => sizedText 1 rest
      | 0xda => sizedText 2 rest
      | 0xdb => sizedText 4 rest
      | 0xdc => arrayOf 2
      | 0xdd => arrayOf 4
      | 0xde => tableOf 2
      | 0xdf => tableOf 4
      | _ => none

/-- Reads a given number of values. -/
def decodeMany (fuel n : Nat) (bs : List UInt8) : Option (List Pack × List UInt8) :=
  match fuel, n with
  | _, 0 => some ([], bs)
  | 0, _ => none
  | fuel + 1, n + 1 => do
    let (v, rest) ← decode fuel bs
    let (vs, rest) ← decodeMany fuel n rest
    return (v :: vs, rest)

/-- Reads a given number of keys with their values. -/
def decodeEntries (fuel n : Nat) (bs : List UInt8) : Option (List (Pack × Pack) × List UInt8) :=
  match fuel, n with
  | _, 0 => some ([], bs)
  | 0, _ => none
  | fuel + 1, n + 1 => do
    let (k, rest) ← decode fuel bs
    let (v, rest) ← decode fuel rest
    let (es, rest) ← decodeEntries fuel n rest
    return ((k, v) :: es, rest)
end

/-- Reads the value at the front of some bytes. -/
def read? (bs : List UInt8) : Option Pack := (decode (2 * bs.length + 2) bs).map (·.1)

end Pack

end LoopNest
