import LoopNest.Digest.Bytes

/-!
# Digests of sources

A source is identified by the hash of a listing of one file: the hash of the source in
hexadecimal, two blanks, and the name of the file. The hash is the secure hash of 256 bits: a message is
padded to whole blocks of sixteen words, and every block is mixed into a state of eight words.
-/

namespace LoopNest.Sha256

/-- The state between blocks. -/
structure State where
  a : UInt32
  b : UInt32
  c : UInt32
  d : UInt32
  e : UInt32
  f : UInt32
  g : UInt32
  h : UInt32
deriving DecidableEq, Repr, Inhabited

/-- The state before the first block. -/
def State.start : State :=
  ⟨0x6a09e667, 0xbb67ae85, 0x3c6ef372, 0xa54ff53a, 0x510e527f, 0x9b05688c, 0x1f83d9ab, 0x5be0cd19⟩

def State.words (s : State) : List UInt32 := [s.a, s.b, s.c, s.d, s.e, s.f, s.g, s.h]

def roundConstants : List UInt32 := [
  0x428a2f98, 0x71374491, 0xb5c0fbcf, 0xe9b5dba5, 0x3956c25b, 0x59f111f1, 0x923f82a4, 0xab1c5ed5,
  0xd807aa98, 0x12835b01, 0x243185be, 0x550c7dc3, 0x72be5d74, 0x80deb1fe, 0x9bdc06a7, 0xc19bf174,
  0xe49b69c1, 0xefbe4786, 0x0fc19dc6, 0x240ca1cc, 0x2de92c6f, 0x4a7484aa, 0x5cb0a9dc, 0x76f988da,
  0x983e5152, 0xa831c66d, 0xb00327c8, 0xbf597fc7, 0xc6e00bf3, 0xd5a79147, 0x06ca6351, 0x14292967,
  0x27b70a85, 0x2e1b2138, 0x4d2c6dfc, 0x53380d13, 0x650a7354, 0x766a0abb, 0x81c2c92e, 0x92722c85,
  0xa2bfe8a1, 0xa81a664b, 0xc24b8b70, 0xc76c51a3, 0xd192e819, 0xd6990624, 0xf40e3585, 0x106aa070,
  0x19a4c116, 0x1e376c08, 0x2748774c, 0x34b0bcb5, 0x391c0cb3, 0x4ed8aa4a, 0x5b9cca4f, 0x682e6ff3,
  0x748f82ee, 0x78a5636f, 0x84c87814, 0x8cc70208, 0x90befffa, 0xa4506ceb, 0xbef9a3f7, 0xc67178f2]

def rotate (x : UInt32) (n : UInt32) : UInt32 := (x >>> n) ||| (x <<< (32 - n))

/-- One round with its constant and its word of the message. -/
def State.round (s : State) (k w : UInt32) : State :=
  let mix := rotate s.e 6 ^^^ rotate s.e 11 ^^^ rotate s.e 25
  let choice := (s.e &&& s.f) ^^^ (~~~s.e &&& s.g)
  let t := s.h + mix + choice + k + w
  let spread := rotate s.a 2 ^^^ rotate s.a 13 ^^^ rotate s.a 22
  let majority := (s.a &&& s.b) ^^^ (s.a &&& s.c) ^^^ (s.b &&& s.c)
  ⟨t + spread + majority, s.a, s.b, s.c, s.d + t, s.e, s.f, s.g⟩

/-- The next word of the schedule, from the last sixteen, the latest first. -/
def nextWord (recent : List UInt32) : UInt32 :=
  let word (k : Nat) := recent[k]?.getD 0
  let x := word 14
  let y := word 1
  word 15 + (rotate x 7 ^^^ rotate x 18 ^^^ (x >>> 3)) + word 6
    + (rotate y 17 ^^^ rotate y 19 ^^^ (y >>> 10))

/-- The schedule of a block: its sixteen words, then `count` more. `recent` holds the words so
far, the latest first. -/
def schedule : Nat → List UInt32 → List UInt32
  | 0, recent => recent.reverse
  | count + 1, recent => schedule count (nextWord recent :: recent)

def State.mix (s : State) (block : List UInt32) : State :=
  let ws := schedule 48 block.reverse
  let t := (roundConstants.zip ws).foldl (fun t (k, w) => t.round k w) s
  ⟨s.a + t.a, s.b + t.b, s.c + t.c, s.d + t.d, s.e + t.e, s.f + t.f, s.g + t.g, s.h + t.h⟩

/-- A message with the marking bit, zeros up to a whole block, and its length in bits. -/
def padded (message : List UInt8) : List UInt8 :=
  let n := message.length
  message ++ 0x80 :: List.replicate ((119 - n % 64) % 64) 0 ++ Bytes.bigEndian 8 (8 * n)

def words : List UInt8 → List UInt32
  | a :: b :: c :: d :: rest => UInt32.ofNat (Bytes.toNat [a, b, c, d]) :: words rest
  | _ => []

/-- Mixes all the words, block by block. -/
def State.absorb (s : State) (ws : List UInt32) : State :=
  if ws.length < 16 then s else (s.mix (ws.take 16)).absorb (ws.drop 16)
termination_by ws.length
decreasing_by simp only [List.length_drop]; omega

def hash (message : List UInt8) : List UInt8 :=
  (State.start.absorb (words (padded message))).words.flatMap fun w => Bytes.bigEndian 4 w.toNat

end LoopNest.Sha256

namespace LoopNest.Kernel

/-- The listing of the one source file of a kernel, by the bytes of the source. -/
def listing (source : List UInt8) : String :=
  Bytes.toHex (Sha256.hash source) ++ "  kernel.c\n"

def digestBytes (source : List UInt8) : String :=
  "h1:" ++ Base64.encode (Sha256.hash (Bytes.ofText (listing source)))

def sourceDigest (source : String) : String := digestBytes (Bytes.ofText source)

end LoopNest.Kernel
