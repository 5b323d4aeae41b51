import LoopNest.Compiler.Library.Basic

/-!
# Bytes and strings

Functions on bytes, on strings, which end with a zero, and on characters.
-/

namespace LoopNest.Compiler.Library

/-- The difference of the first bytes that differ. A missing byte counts as zero. -/
def compareBytes : List UInt8 → List UInt8 → Int
  | a :: as, b :: bs => if a = b then compareBytes as bs else (a.toNat : Int) - b.toNat
  | a :: _, [] => a.toNat
  | [], b :: _ => -(b.toNat : Int)
  | [], [] => 0

def lowerByte (b : UInt8) : UInt8 := if 65 ≤ b && b ≤ 90 then b + 32 else b

/-- The address of the byte with a number among those from an address on, and zero if there is
none. -/
def found (address : Int) : Option Nat → Run Value
  | some i => given (address + i)
  | none => given 0

def placeOf? (needle : List UInt8) (start : Nat) : List UInt8 → Option Nat
  | [] => if needle.isEmpty then some start else none
  | b :: bs => if needle.isPrefixOf (b :: bs) then some start else placeOf? needle (start + 1) bs

def copyBytes (target source n : Int) : Run Unit := do
  Run.storeBytes target (← Run.loadBytes source n.toNat)

/-- The first part of a string between some characters, after the one that was given before. -/
def nextPart (start : Int) (separators : List UInt8) : Run Value := do
  let p ← get
  let start := if start = 0 then Int.ofNat p.cut else start
  if start = 0 then given 0
  else
    let all ← stringAt start
    let skipped := (all.takeWhile separators.contains).length
    let part := (all.drop skipped).takeWhile (!separators.contains ·)
    if part.isEmpty then
      modify fun p => { p with cut := 0 }
      given 0
    else
      let stop := skipped + part.length
      let isEnd := stop = all.length
      if !isEnd then Run.storeByte (start + stop) 0
      modify fun p => { p with cut := if isEnd then 0 else (start + stop + 1).toNat }
      given (start + skipped)

def bytes : List (String × Handler) :=
  [("memcpy", ofIntegers fun
      | [a, b, n] => do
        copyBytes a b n
        given a
      | _ => Run.fault),
    ("memmove", ofIntegers fun
      | [a, b, n] => do
        copyBytes a b n
        given a
      | _ => Run.fault),
    ("mempcpy", ofIntegers fun
      | [a, b, n] => do
        copyBytes a b n
        given (a + n)
      | _ => Run.fault),
    ("bcopy", ofIntegers fun
      | [a, b, n] => do
        copyBytes b a n
        return .nothing
      | _ => Run.fault),
    ("memset", ofIntegers fun
      | [a, v, n] => do
        let b := (Integer.unsignedChar.wrap v).toNat.toUInt8
        Run.storeBytes a (ByteArray.mk (Array.replicate n.toNat b))
        given a
      | _ => Run.fault),
    ("bzero", ofIntegers fun
      | [a, n] => do
        Run.storeBytes a (Memory.zeros n.toNat)
        return .nothing
      | _ => Run.fault),
    ("memcmp", ofIntegers fun
      | [a, b, n] => do
        given (compareBytes (← Run.loadBytes a n.toNat).toList (← Run.loadBytes b n.toNat).toList)
      | _ => Run.fault),
    ("bcmp", ofIntegers fun
      | [a, b, n] => do
        given (compareBytes (← Run.loadBytes a n.toNat).toList (← Run.loadBytes b n.toNat).toList)
      | _ => Run.fault),
    ("memchr", ofIntegers fun
      | [a, v, n] => do
        let b := (Integer.unsignedChar.wrap v).toNat.toUInt8
        found a ((← Run.loadBytes a n.toNat).toList.findIdx? (· = b))
      | _ => Run.fault),
    ("memrchr", ofIntegers fun
      | [a, v, n] => do
        let b := (Integer.unsignedChar.wrap v).toNat.toUInt8
        let all := (← Run.loadBytes a n.toNat).toList
        found a ((all.reverse.findIdx? (· = b)).map fun i => all.length - 1 - i)
      | _ => Run.fault)]

def strings : List (String × Handler) :=
  [("strlen", ofIntegers fun
      | [a] => do given (← stringAt a).length
      | _ => Run.fault),
    ("strnlen", ofIntegers fun
      | [a, n] => do given (← stringWithin a n).length
      | _ => Run.fault),
    ("strcpy", ofIntegers fun
      | [a, b] => do
        storeString a (← stringAt b)
        given a
      | _ => Run.fault),
    ("stpcpy", ofIntegers fun
      | [a, b] => do
        let s ← stringAt b
        storeString a s
        given (a + s.length)
      | _ => Run.fault),
    ("strncpy", ofIntegers fun
      | [a, b, n] => do
        let s ← stringWithin b n
        Run.storeBytes a (ByteArray.mk (s ++ List.replicate (n.toNat - s.length) 0).toArray)
        given a
      | _ => Run.fault),
    ("strcat", ofIntegers fun
      | [a, b] => do
        let length := (← stringAt a).length
        storeString (a + length) (← stringAt b)
        given a
      | _ => Run.fault),
    ("strncat", ofIntegers fun
      | [a, b, n] => do
        let length := (← stringAt a).length
        storeString (a + length) (← stringWithin b n)
        given a
      | _ => Run.fault),
    ("strcmp", ofIntegers fun
      | [a, b] => do given (compareBytes (← stringAt a) (← stringAt b))
      | _ => Run.fault),
    ("strcoll", ofIntegers fun
      | [a, b] => do given (compareBytes (← stringAt a) (← stringAt b))
      | _ => Run.fault),
    ("strncmp", ofIntegers fun
      | [a, b, n] => do given (compareBytes (← stringWithin a n) (← stringWithin b n))
      | _ => Run.fault),
    ("strcasecmp", ofIntegers fun
      | [a, b] => do
        given (compareBytes ((← stringAt a).map lowerByte) ((← stringAt b).map lowerByte))
      | _ => Run.fault),
    ("strncasecmp", ofIntegers fun
      | [a, b, n] => do
        given (compareBytes ((← stringWithin a n).map lowerByte) ((← stringWithin b n).map lowerByte))
      | _ => Run.fault),
    ("strchr", ofIntegers firstPlace), ("index", ofIntegers firstPlace),
    ("strrchr", ofIntegers lastPlace), ("rindex", ofIntegers lastPlace),
    ("strstr", ofIntegers fun
      | [a, b] => do found a (placeOf? (← stringAt b) 0 (← stringAt a))
      | _ => Run.fault),
    ("strspn", ofIntegers fun
      | [a, b] => do
        let set ← stringAt b
        given ((← stringAt a).takeWhile set.contains).length
      | _ => Run.fault),
    ("strcspn", ofIntegers fun
      | [a, b] => do
        let set ← stringAt b
        given ((← stringAt a).takeWhile (!set.contains ·)).length
      | _ => Run.fault),
    ("strpbrk", ofIntegers fun
      | [a, b] => do
        let set ← stringAt b
        found a ((← stringAt a).findIdx? set.contains)
      | _ => Run.fault),
    ("strtok", ofIntegers fun
      | [a, b] => do nextPart a (← stringAt b)
      | _ => Run.fault),
    ("strdup", ofIntegers fun
      | [a] => do newString (← stringAt a)
      | _ => Run.fault),
    ("strndup", ofIntegers fun
      | [a, n] => do newString (← stringWithin a n)
      | _ => Run.fault)]
where
  /-- The first place of a character in a string. -/
  firstPlace : List Int → Run Value
    | [a, v] => do
      let b := (Integer.unsignedChar.wrap v).toNat.toUInt8
      found a (((← stringAt a) ++ [0]).findIdx? (· = b))
    | _ => Run.fault
  /-- The last place of a character in a string. -/
  lastPlace : List Int → Run Value
    | [a, v] => do
      let b := (Integer.unsignedChar.wrap v).toNat.toUInt8
      let all := (← stringAt a) ++ [0]
      found a ((all.reverse.findIdx? (· = b)).map fun i => all.length - 1 - i)
    | _ => Run.fault

/-- The classes of characters, each with the bit that stands for it in a table. -/
def classes : List (String × Nat × (Char → Bool)) :=
  let isPrint (c : Char) : Bool := 32 ≤ c.toNat && c.toNat < 127
  let isSpace (c : Char) : Bool := c = ' ' || (9 ≤ c.toNat && c.toNat ≤ 13)
  let isHex (c : Char) : Bool := c.isDigit || ('a' ≤ c && c ≤ 'f') || ('A' ≤ c && c ≤ 'F')
  [("isupper", 256, Char.isUpper), ("islower", 512, Char.isLower), ("isalpha", 1024, Char.isAlpha),
    ("isdigit", 2048, Char.isDigit), ("isxdigit", 4096, isHex), ("isspace", 8192, isSpace),
    ("isprint", 16384, isPrint), ("isgraph", 32768, fun c => isPrint c && c ≠ ' '),
    ("isblank", 1, fun c => c = ' ' || c.toNat = 9),
    ("iscntrl", 2, fun c => c.toNat < 32 || c.toNat = 127),
    ("ispunct", 4, fun c => isPrint c && !c.isAlphanum && c ≠ ' '),
    ("isalnum", 8, Char.isAlphanum)]

def classBits (v : Int) : Nat :=
  if v < 0 || 127 < v then 0
  else classes.foldl (fun bits (_, bit, holds) => if holds (Char.ofNat v.toNat) then bits + bit else bits) 0

def lowered (v : Int) : Int := if 65 ≤ v && v ≤ 90 then v + 32 else v

/-- A character in upper case. -/
def raised (v : Int) : Int := if 97 ≤ v && v ≤ 122 then v - 32 else v

/-- A new table of values for the characters from -128 to 255, and a place with the address of the
one for zero. -/
def newTable (k : Integer) (f : Int → Int) : Run Nat := do
  let table ← Run.allocate (384 * k.bytes)
  (List.range 384).forM fun i =>
    Run.store (.integer k) (table + i * k.bytes : Nat) (.integer (k.wrap (f ((i : Int) - 128))))
  let place ← Run.allocate 8
  Run.store Cell.pointer place (.integer (table + 128 * k.bytes : Nat))
  return place

def characters : List (String × Handler) :=
  (classes.map fun (name, bit, _) => (name, pureInteger fun v => (classBits v &&& bit : Nat)))
    ++ [("tolower", pureInteger lowered), ("toupper", pureInteger raised),
      ("isascii", pureInteger fun v => truthValue (0 ≤ v && v < 128)),
      ("toascii", pureInteger fun v => v % 128),
      ("__ctype_b_loc", ofIntegers fun _ => do
        given (← tableAt "classes" (newTable .unsignedShort fun v => classBits v))),
      ("__ctype_tolower_loc", ofIntegers fun _ => do
        given (← tableAt "lower" (newTable .int lowered))),
      ("__ctype_toupper_loc", ofIntegers fun _ => do
        given (← tableAt "upper" (newTable .int raised)))]

end LoopNest.Compiler.Library
