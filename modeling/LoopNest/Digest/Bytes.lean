/-!
# Bytes

Texts and numbers as lists of bytes, and lists of bytes written in hexadecimal and in base 64.
-/

namespace LoopNest.Bytes

def ofText (s : String) : List UInt8 := s.toUTF8.data.toList

/-- The text with a given encoding, if there is one. -/
def toText? (bs : List UInt8) : Option String := String.fromUTF8? ⟨bs.toArray⟩

/-- A number as bytes of which the first is the highest; it is taken modulo 256 to the power of
the count. -/
def bigEndian : Nat → Nat → List UInt8
  | 0, _ => []
  | count + 1, n => UInt8.ofNat (n / Nat.pow 256 count) :: bigEndian count n

/-- The number written by bytes of which the first is the highest. -/
def toNat (bs : List UInt8) : Nat := bs.foldl (fun n b => 256 * n + b.toNat) 0

/-- The two lower-case hexadecimal digits of a byte. -/
def hexDigits (b : UInt8) : List Char := [Nat.digitChar (b.toNat / 16), Nat.digitChar (b.toNat % 16)]

def toHex (bs : List UInt8) : String := String.ofList (bs.flatMap hexDigits)

def hexValue? (c : Char) : Option Nat :=
  if '0' ≤ c ∧ c ≤ '9' then some (c.toNat - 48)
  else if 'a' ≤ c ∧ c ≤ 'f' then some (c.toNat - 87)
  else if 'A' ≤ c ∧ c ≤ 'F' then some (c.toNat - 55)
  else none

/-- The bytes written by pairs of hexadecimal digits. -/
def ofHexDigits? : List Char → Option (List UInt8)
  | [] => some []
  | [_] => none
  | h :: l :: cs => do
    let b := 16 * (← hexValue? h) + (← hexValue? l)
    return UInt8.ofNat b :: (← ofHexDigits? cs)

end LoopNest.Bytes

/-! ## Base 64

Three bytes are written as four characters of six bits each; the last group is filled up with
equals signs. -/

namespace LoopNest.Base64

/-- The character of six bits. -/
def digit (n : Nat) : Char :=
  if n < 26 then Char.ofNat (65 + n)
  else if n < 52 then Char.ofNat (71 + n)
  else if n < 62 then Char.ofNat (n - 4)
  else if n = 62 then '+'
  else '/'

def encodeChars : List UInt8 → List Char
  | [] => []
  | [a] => [digit (a.toNat / 4), digit (a.toNat % 4 * 16), '=', '=']
  | [a, b] =>
    [digit (a.toNat / 4), digit (a.toNat % 4 * 16 + b.toNat / 16), digit (b.toNat % 16 * 4), '=']
  | a :: b :: c :: rest =>
    digit (a.toNat / 4) :: digit (a.toNat % 4 * 16 + b.toNat / 16)
      :: digit (b.toNat % 16 * 4 + c.toNat / 64) :: digit (c.toNat % 64) :: encodeChars rest

def encode (bs : List UInt8) : String := String.ofList (encodeChars bs)

end LoopNest.Base64
