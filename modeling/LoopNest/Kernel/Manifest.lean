import LoopNest.C.Function
import LoopNest.Host.Path
import LoopNest.Kernel.Digest
import LoopNest.Kernel.MessagePack

/-!
# Manifests

A manifest describes a kernel: how it is called and where its files are. It is stored as a record
whose values may come in any order. A field that is given again is read on top of the value it
has: a list keeps the items that are not given, also those that a shorter list left over, and an
item keeps the fields that are not given.
-/

namespace LoopNest

namespace Manifest

structure Formal where
  name : RawText := ""
  /-- The shape of the argument. An argument of which no shape is given is a scalar. -/
  shape : Option Shape := none
  input : Bool := false
  output : Bool := false
deriving DecidableEq, Repr, Inhabited

def Formal.dims (f : Formal) : Shape := f.shape.getD []

def Formal.ofCode (f : C.Formal) : Formal :=
  { name := f.name, shape := some f.shape, input := f.input, output := f.output }

end Manifest

/-- The description of a kernel. -/
structure Manifest where
  funcName : RawText := ""
  /-- The name of the entry point. -/
  entry : RawText := ""
  /-- The arguments, if there is a list of them. -/
  formals : Option (List Manifest.Formal) := none
  dtype : ElementType := .unset
  source : Path := ""
  library : Path := ""
  digest : RawText := ""
deriving DecidableEq, Repr, Inhabited

namespace Manifest

/-- The description of emitted code whose files are at the given paths. -/
def ofCode (c : C.Code) (source library : Path) : Manifest where
  funcName := c.funcName
  entry := c.entry
  formals := if c.formals.isEmpty then none else some (c.formals.map Formal.ofCode)
  dtype := c.dtype
  source := source
  library := library
  digest := Kernel.sourceDigest c.source

def arguments (m : Manifest) : List Formal := m.formals.getD []

/-- A list as a value; no list is nothing. -/
def packList (f : α → Pack) : Option (List α) → Pack
  | none => .nil
  | some items => .array (items.map f)

def packFormal (f : Formal) : Pack :=
  .table [(.ofText "Name", .text f.name.bytes), (.ofText "Shape", packList .integer f.shape),
    (.ofText "Input", .truth f.input), (.ofText "Output", .truth f.output)]

def pack (m : Manifest) : Pack :=
  .table [(.ofText "func", .text m.funcName.bytes), (.ofText "entry", .text m.entry.bytes),
    (.ofText "formals", packList packFormal m.formals),
    (.ofText "dtype", .word (UInt32.ofNat m.dtype.code)), (.ofText "source", .text m.source.bytes),
    (.ofText "library", .text m.library.bytes), (.ofText "digest", .text m.digest.bytes)]

/-- A text; nothing stands for the empty one. -/
def text? : Pack → Option RawText
  | .nil => some ⟨[]⟩
  | .text data => some ⟨data⟩
  | _ => none

/-- An integer; nothing stands for zero. -/
def integer? : Pack → Option Int
  | .nil => some 0
  | .integer n => some n
  | .word n => some n.toNat
  | _ => none

/-- A truth value; nothing stands for false. -/
def truth? : Pack → Option Bool
  | .nil => some false
  | .truth b => some b
  | _ => none

/-- A shape, or none. -/
def shape? : Pack → Option (Option Shape)
  | .nil => some none
  | .array items => do return some (← items.mapM integer?)
  | _ => none

/-- The values of a record by the names of its fields: a table, or an array with a value for each
field. -/
def fields? (names : List String) : Pack → Option (List (String × Pack))
  | .table entries => entries.mapM fun (k, v) => do return ((← text? k).toText, v)
  | .array items => if items.length = names.length then some (names.zip items) else none
  | _ => none

/-- Reads a field of an argument. Unknown fields are passed over. -/
def formalField? (f : Formal) : String × Pack → Option Formal
  | ("Name", v) => do return { f with name := ← text? v }
  | ("Shape", v) => do return { f with shape := ← shape? v }
  | ("Input", v) => do return { f with input := ← truth? v }
  | ("Output", v) => do return { f with output := ← truth? v }
  | _ => some f

/-- Reads an argument on top of another one. Nothing stands for an argument without values. -/
def formal? (old : Formal) : Pack → Option Formal
  | .nil | .array [] => some {}
  | v => do (← fields? ["Name", "Shape", "Input", "Output"] v).foldlM formalField? old

/-- Reads arguments, each on top of the old one at its position. -/
def formals? : List Formal → List Pack → Option (List Formal)
  | _, [] => some []
  | old, v :: vs => do return (← formal? (old.headD {}) v) :: (← formals? old.tail vs)

/-- A manifest that is being read, with the arguments that a shorter list left over. -/
structure Draft where
  manifest : Manifest := {}
  spare : List Formal := []

/-- Reads the list of arguments. -/
def Draft.formals? (d : Draft) : Pack → Option Draft
  | .nil => some { manifest := { d.manifest with formals := none } }
  | .array items => do
    let old := d.manifest.arguments ++ d.spare
    let new ← Manifest.formals? old items
    return { manifest := { d.manifest with formals := some new }, spare := old.drop items.length }
  | _ => none

/-- Reads a field. Unknown fields are passed over. -/
def Draft.field? (d : Draft) : String × Pack → Option Draft
  | ("func", v) => do return { d with manifest := { d.manifest with funcName := ← text? v } }
  | ("entry", v) => do return { d with manifest := { d.manifest with entry := ← text? v } }
  | ("formals", v) => d.formals? v
  | ("dtype", v) => do
    let code := ((← integer? v) % 0x100000000).toNat
    return { d with manifest := { d.manifest with dtype := .ofCode code } }
  | ("source", v) => do return { d with manifest := { d.manifest with source := ← text? v } }
  | ("library", v) => do return { d with manifest := { d.manifest with library := ← text? v } }
  | ("digest", v) => do return { d with manifest := { d.manifest with digest := ← text? v } }
  | _ => some d

/-- Reads a manifest. Nothing stands for a manifest without values. -/
def unpack? : Pack → Option Manifest
  | .nil | .array [] => some {}
  | v => do
    let names := ["func", "entry", "formals", "dtype", "source", "library", "digest"]
    return (← (← fields? names v).foldlM Draft.field? {}).manifest

end Manifest

end LoopNest
