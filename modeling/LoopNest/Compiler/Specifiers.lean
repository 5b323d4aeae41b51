import LoopNest.Compiler.Declarator

/-!
# Words of C declarations

Reads the words of a declaration up to the declared name: where something is kept, what may be done
with it, and its type, which may be a structure with its members or an enumeration with its
constants.
-/

namespace LoopNest.Compiler

/-- The words of the types of numbers, with the ones that are used for them here. -/
def typeWords : List (String × String) :=
  [("void", "void"), ("char", "char"), ("short", "short"), ("int", "int"), ("long", "long"),
    ("float", "float"), ("double", "double"), ("signed", "signed"), ("unsigned", "unsigned"),
    ("_Bool", "_Bool"), ("_Complex", "_Complex"), ("__signed", "signed"), ("__signed__", "signed"),
    ("__complex", "_Complex"), ("__complex__", "_Complex"), ("__int128", "__int128"),
    ("_Float32", "_Float32"), ("_Float64", "_Float64"), ("_Float32x", "_Float64"),
    ("_Float64x", "_Float64x"), ("_Float128", "_Float128"), ("__float128", "_Float128")]

/-- The words for what may be done with an object. -/
def qualifierWords : List (String × Quals) :=
  let const : Quals := { isConst := true }
  let volatile : Quals := { isVolatile := true }
  let restrict : Quals := { isRestrict := true }
  [("const", const), ("__const", const), ("__const__", const), ("volatile", volatile),
    ("__volatile", volatile), ("__volatile__", volatile), ("restrict", restrict),
    ("__restrict", restrict), ("__restrict__", restrict), ("_Atomic", {}), ("__extension__", {})]

/-- The words that say where something is kept. -/
def storageWords : List (String × Storage) :=
  [("typedef", .typedef), ("extern", .external), ("static", .static), ("auto", .auto),
    ("register", .register)]

/-- The words for functions whose code is put in the place of calls, and for objects of threads. -/
def inlineWords : List String := ["inline", "__inline", "__inline__"]

/-- The words for objects that every thread has its own of. -/
def threadWords : List String := ["__thread", "_Thread_local"]

def tagWords : List String := ["struct", "union", "enum"]

/-- The words that start a type given by an operand. -/
def typeofWords : List String := ["__typeof", "__typeof__", "typeof"]

/-- The other words that can start a declaration. -/
def otherWords : List String := ["_Alignas", "__auto_type", "_Noreturn"]

def basicType? (words : List String) : Option CType :=
  let count (w : String) := words.count w
  let has (w : String) := 0 < count w
  let only (ws : List String) := words.all ws.contains
  if words.any (fun w => w != "long" && 1 < count w) || 2 < count "long" then none
  else if has "signed" && has "unsigned" then none
  else
    let chosen (signed unsigned : Integer) : CType := .integer (if has "unsigned" then unsigned else signed)
    let fraction (k : Fraction) : CType := if has "_Complex" then .complex k else .fraction k
    if has "char" then
      if !only ["char", "signed", "unsigned"] then none
      else if has "signed" then some (.integer .signedChar)
      else some (chosen .char .unsignedChar)
    else if has "__int128" then
      if only ["__int128", "signed", "unsigned"] then some (chosen .int128 .unsignedInt128) else none
    else if has "double" then
      if !only ["double", "long", "_Complex"] || 1 < count "long" then none
      else some (fraction (if has "long" then .extended else .double))
    else if has "float" then
      if only ["float", "_Complex"] then some (fraction .float) else none
    else if has "_Complex" && words.length = 1 then some (.complex .double)
    else if has "short" then
      if only ["short", "int", "signed", "unsigned"] then some (chosen .short .unsignedShort) else none
    else if has "int" || has "long" || has "signed" || has "unsigned" then
      if !only ["int", "long", "signed", "unsigned"] then none
      else match count "long" with
        | 0 => some (chosen .int .unsignedInt)
        | 1 => some (chosen .long .unsignedLong)
        | _ => some (chosen .longLong .unsignedLongLong)
    else match words with
      | ["void"] => some .void
      | ["_Bool"] => some (.integer .bool)
      | ["_Float32"] => some (.fraction .float)
      | ["_Float64"] => some (.fraction .double)
      | ["_Float64x"] => some (.fraction .extended)
      | ["_Float128"] => some (.fraction .quad)
      | _ => none

namespace Reading

def startsType (w : String) : Reading Bool := do
  match ← meaning? w with
  | some (.type _ _) => return true
  | some _ => return false
  | none =>
    if keywords.contains w then
      return (typeWords.lookup w).isSome || (qualifierWords.lookup w).isSome
        || (storageWords.lookup w).isSome || inlineWords.contains w || threadWords.contains w
        || tagWords.contains w || typeofWords.contains w || otherWords.contains w
        || attributeWords.contains w
    else return w = "__builtin_va_list" || (← get).dialect.words.contains w && w ≠ "asm"

def atType : Reading Bool := do
  match ← peek with
  | some (.word w) => startsType w
  | _ => return false

/-- Whether an opening bracket has a type in it. -/
def castNext : Reading Bool := do
  match (← get).tokens with
  | .mark "(" :: rest =>
    match rest.dropWhile (· = .word "__extension__") with
    | .word w :: _ => startsType w
    | _ => return false
  | _ => return false

/-- A name without the underscores around it. -/
def plainName (w : String) : String :=
  if w.startsWith "__" && w.endsWith "__" && 4 < w.length then
    String.ofList ((w.toList.drop 2).take (w.length - 4))
  else w

/-- The text in the brackets of an attribute, if there is one. -/
def attributeText (inside : List Token) : Option String :=
  match inside with
  | [.text _ s] => some s
  | _ => none

def statementWords : List String :=
  ["break", "case", "continue", "default", "do", "else", "for", "goto", "if", "return", "sizeof",
    "switch", "while", "_Alignof", "_Generic", "_Static_assert", "__attribute", "__attribute__",
    "__asm", "__asm__", "__extension__", "__func__", "__label__"]

def bareAttributes : List (String × Attributes) :=
  [("packed", { isPacked := true }), ("weak", { isWeak := true }), ("used", { isKept := true }),
    ("externally_visible", { isKept := true }), ("unused", { isIdle := true }),
    ("transparent_union", { isTransparent := true }), ("gnu_inline", { isOldInline := true }),
    ("noreturn", {}), ("const", {}), ("pure", {}), ("cold", {}), ("hot", {}), ("noinline", {}),
    ("always_inline", {}), ("flatten", {}), ("leaf", {}), ("nothrow", {}), ("may_alias", {}),
    ("noclone", {}), ("naked", {}), ("returns_twice", {}), ("warn_unused_result", {}),
    ("no_instrument_function", {}), ("returns_nonnull", {}), ("artificial", {}), ("common", {}),
    ("nocommon", {}), ("noipa", {})]

def oneAttribute (r : Readers) : Reading Attributes := do
  match ← peek with
  | some (.word w) =>
    require !(statementWords.contains w)
    skip
    if let some a := bareAttributes.lookup (plainName w) then
      if ← isNext "(" then require (← bracketed).isEmpty
      return a
    match plainName w with
    | "constructor" =>
      if ← isNext "(" then
        let _ ← bracketed
      return { isConstructor := true }
    | "aligned" =>
      if ← accept "(" then
        let n ← integerConstant (← r.conditional)
        expect ")"
        require (0 < n && (n.toNat &&& (n.toNat - 1)) = 0)
        return { align := n.toNat }
      else return { align := 16 }
    | "visibility" =>
      match attributeText (← bracketed) with
      | some "hidden" | some "internal" => return { isHidden := some true }
      | some "default" | some "protected" => return { isHidden := some false }
      | _ => refuse
    | "alias" => return { target := ← demand (attributeText (← bracketed)) }
    | "weakref" =>
      let target ← if ← isNext "(" then pure (attributeText (← bracketed)) else pure none
      return { target, isWeak := true }
    | "cleanup" =>
      match ← bracketed with
      | [.word f] => return { cleanup := some f }
      | _ => refuse
    | _ =>
      if ← isNext "(" then
        let _ ← bracketed
      return {}
  | _ => return {}

/-- Reads attributes up to the closing brackets. -/
def attributeList (r : Readers) : Reading Attributes := do
  expect "("
  expect "("
  let first ← oneAttribute r
  let all ← improve first fun a => do
    if ← accept "," then return some (a.union (← oneAttribute r)) else return none
  expect ")"
  expect ")"
  return all

/-- Passes over attributes in square brackets, if they are next. -/
def squareAttributes : Reading Bool := do
  if (← isNext "[") && (← peekSecond) = some (.mark "[") then
    let rest := (← get).tokens.dropWhile (· ≠ .mark "]")
    require (rest.take 2 = [.mark "]", .mark "]"])
    modify fun p => p.settled (rest.drop 2)
    return true
  else return false

/-- Reads attributes, if they are next. -/
def attributes (r : Readers) : Reading Attributes :=
  improve {} fun (a : Attributes) => do
    if ← acceptWords attributeWords then return some (a.union (← attributeList r))
    else if ← squareAttributes then return some a
    else return none

/-- The place of a member after some bits, with the bits up to its end. -/
def placeMember (rs : Records) (isUnion isPacked : Bool) (pack : Nat) (bit : Nat)
    (m : Member) (width : Option Nat) (align : Nat) : Member × Nat × Nat :=
  let bit := if isUnion then 0 else bit
  let natural := m.type.alignOf rs
  let natural := if isPacked then 1 else if pack = 0 then natural else min pack natural
  let natural := max natural align
  let size := m.type.sizeOf rs
  match width with
  | none =>
    let start := roundUp bit (8 * natural)
    ({ m with offset := start / 8 }, start + 8 * size, natural)
  | some 0 => (m, roundUp bit (8 * size), 1)
  | some w =>
    let unit := 8 * size
    let bit := if align = 0 then bit else roundUp bit (8 * align)
    if isPacked then
      ({ m with offset := bit / 8, bits := some (bit % 8, w) }, bit + w, 1)
    else
      let start := if bit / unit = (bit + w - 1) / unit then bit else roundUp bit unit
      ({ m with offset := start / unit * size, bits := some (start % unit, w) }, start + w,
        if m.name.isSome then natural else 1)

/-- The members of a structure at their places, with its size and alignment. -/
def layOut (rs : Records) (isUnion isPacked : Bool) (pack : Nat) (own : Nat)
    (ms : List (Member × Option Nat × Nat)) : Record :=
  let (placed, bits, align) := ms.foldl (fun (placed, bits, align) (m, width, a) =>
    let (m, bit, b) := placeMember rs isUnion isPacked pack bits m width a
    (m :: placed, max bits bit, max align b)) (([] : List Member), 0, 1)
  let align := max align own
  { isUnion
    members := some placed.reverse
    size := roundUp ((bits + 7) / 8) align
    align
    isPacked }

/-- The names of a member, or those of the members of a member without a name. -/
def memberNames (rs : Records) (fuel : Nat) (m : Member) : List String :=
  match m.name, fuel, m.type with
  | some w, _, _ => [w]
  | none, fuel + 1, .record id =>
    ((((rs[id]?).bind (·.members)).getD []).map (memberNames rs fuel)).flatten
  | _, _, _ => []

/-- Reads the width of a member that is a number of bits, and gives the member. -/
def bitMember (r : Readers) (m : Member) : Reading (Member × Option Nat) := do
  let width ← integerConstant (← r.conditional)
  let k ← demand m.type.integer?
  let most := if k = .bool then 1 else k.bits
  require (0 ≤ width && width ≤ most && (0 < width || m.name.isNone))
  return (m, some width.toNat)

def memberDeclaration (r : Readers) (isUnion : Bool) : Reading (List (Member × Option Nat × Nat)) := do
  let sp ← r.specifiers
  require (sp.storage.isNone && !sp.isInline && !sp.isTypeless)
  if ← accept ";" then
    match sp.type with
    | .record _ => return [({ name := none, type := sp.type, quals := sp.quals }, none, sp.attributes.align)]
    | _ => return []
  let one : Reading (Member × Option Nat × Nat) := do
    let d ← if ← isNext ":" then pure {} else r.declarator
    let (quals, t) ← typeOf sp d.steps
    let m : Member := { name := d.name, type := t, quals }
    let (m, width) ← if ← accept ":" then bitMember r m else pure (m, none)
    let more ← attributes r
    require (!t.isFunction && !t.isVariable && (d.name.isSome || width.isSome))
    require ((← isComplete t) || (t.isOpenArray && !isUnion))
    let packed := more.isPacked || d.attributes.isPacked
    let align := max sp.attributes.align (max d.attributes.align more.align)
    return (m, width, if packed && align = 0 then 0 else align)
  let first ← one
  let rest ← many do
    if ← accept "," then return some (← one) else return none
  if !(← isNext "\x7d") then expect ";"
  return first :: rest

/-- Reads an assertion, after its word. -/
def assertion (r : Readers) : Reading Unit := do
  expect "("
  let v ← integerConstant (← r.conditional)
  if ← accept "," then
    match ← peek with
    | some (.text _ _) =>
      let _ ← many do
        match ← peek with
        | some (.text _ _) =>
          skip
          return some ()
        | _ => return none
    | _ => refuse
  expect ")"
  expect ";"
  require (v ≠ 0)

/-- Reads the members of a structure up to the closing brace. -/
def members (r : Readers) (isUnion : Bool) : Reading (List (Member × Option Nat × Nat)) := do
  let lists ← many do
    if ← accept "\x7d" then return none
    else if ← accept ";" then return some []
    else if ← acceptWord "_Static_assert" then
      assertion r
      return some []
    else return some (← memberDeclaration r isUnion)
  return lists.flatten

/-- Reads the constants of an enumeration up to the closing brace, and gives their values. -/
def enumerators (r : Readers) : Reading (List Int) := do
  let (_, values, _) ← improve ((0 : Int), ([] : List Int), false) fun (next, values, isEnd) => do
    if isEnd then return none
    if !values.isEmpty then
      if ← accept "\x7d" then return some (next, values, true)
    let w ← name
    require (← innermost? w).isNone
    let _ ← attributes r
    let v ← if ← accept "=" then integerConstant (← r.conditional) else pure next
    let k : Integer := if Integer.int.holds v then .int else if Integer.unsignedInt.holds v
      then .unsignedInt else if Integer.long.holds v then .long else .unsignedLong
    define w (.constant v (.integer k))
    let isEnd ← if ← accept "," then pure false else do
      expect "\x7d"
      pure true
    return some (v + 1, v :: values, isEnd)
  return values

def enumerationType (values : List Int) : Integer :=
  let all (k : Integer) : Bool := values.all k.holds
  if values.all (0 ≤ ·) then (if all .unsignedInt then .unsignedInt else .unsignedLong)
  else if all .int then .int else .long

/-- Whether a type is a structure, a union or an enumeration, as a word says. -/
def isTagged (rs : Records) (kind : String) : CType → Bool
  | .record id => kind = if (rs[id]?).any (·.isUnion) then "union" else "struct"
  | .enumeration _ _ => kind = "enum"
  | _ => false

/-- A new structure without members. -/
def addRecord (isUnion : Bool) : Reading Nat :=
  modifyGet fun p => (p.records.size, { p with records := p.records.push { isUnion } })

/-- The structure that a definition gives members to: the one that its tag stands for in the
innermost block, or a new one. -/
def recordFor (kind : String) (tag : Option String) : Reading Nat := do
  let p ← get
  match tag.bind fun w => p.scopes.head?.bind (·.tags.get? w) with
  | some t =>
    require (isTagged p.records kind t && !t.isComplete p.records)
    match t with
    | .record id => return id
    | _ => refuse
  | none =>
    let id ← addRecord (kind = "union")
    if let some w := tag then defineTag w (.record id)
    return id

/-- Reads the members of a structure after the opening brace. -/
def recordBody (r : Readers) (kind : String) (tag : Option String) (front : Attributes) :
    Reading CType := do
  let id ← recordFor kind tag
  let isUnion := kind = "union"
  let ms ← members r isUnion
  let back ← attributes r
  let rs ← records
  require !(rs[id]?.any (·.members.isSome))
  let names := (ms.map fun m => memberNames rs 16 m.1).flatten
  require (names.eraseDups.length = names.length)
  let isOpen := ms.getLast?.any fun m => m.1.type.isOpenArray
  require (ms.dropLast.all (!·.1.type.isOpenArray) && (!isOpen || 1 < names.length))
  let own := front.union back
  let pack := (← get).packing.headD 0
  let made := layOut rs isUnion own.isPacked pack own.align ms
  let made := { made with isFlexible := isOpen, isTransparent := own.isTransparent }
  modify fun p => { p with records := p.records.set! id made }
  return .record id

/-- Reads a type with a tag, after its first word. -/
def tagged (r : Readers) (kind : String) : Reading CType := do
  let front ← attributes r
  let tag ← match ← peek with
    | some (.word w) =>
      require !(← isKeyword w)
      skip
      pure (some w)
    | _ => pure none
  if ← accept "\x7b" then
    if kind = "enum" then
      let p ← get
      if let some w := tag then require (p.scopes.head?.bind (·.tags.get? w)).isNone
      let id := p.enumerations
      modify fun p => { p with enumerations := id + 1 }
      let values ← enumerators r
      let back ← attributes r
      let k := if (front.union back).isPacked then .unsignedChar else enumerationType values
      let t := CType.enumeration id k
      if let some w := tag then defineTag w t
      return t
    else recordBody r kind tag front
  else
    let w ← demand tag
    let p ← get
    let isAlone := (← isNext ";") && kind ≠ "enum"
    let found := if isAlone then p.scopes.head?.bind (·.tags.get? w)
      else p.scopes.findSome? (·.tags.get? w)
    match found with
    | some t =>
      require (isTagged p.records kind t || (kind = "enum" && !t.isComplete p.records))
      return t
    | none =>
      let id ← addRecord (kind = "union")
      defineTag w (.record id)
      return .record id

/-- What has been read of the words of a declaration. -/
structure Words where
  given : Specifiers := {}
  words : List String := []
  type : Option (Quals × CType) := none
deriving Inhabited

/-- Reads a type in brackets given by an operand or by itself. -/
def typeofType (r : Readers) : Reading (Quals × CType) := do
  expect "("
  let result ← if ← atType then do
      let sp ← r.specifiers
      let d ← r.declarator
      require d.name.isNone
      typeOf sp d.steps
    else do
      let o ← r.expression
      require o.bits.isNone
      pure (o.quals, o.type)
  expect ")"
  return result

/-- Reads a word of a declaration, if one is next. -/
def word (r : Readers) (ws : Words) : Reading (Option Words) := do
  if ← squareAttributes then return some ws
  match ← peek with
  | some (.word w) =>
    let sp := ws.given
    let isFree := ws.type.isNone && ws.words.isEmpty
    if !isFree && !keywords.contains w && !(← get).dialect.words.contains w then return none
    match typeWords.lookup w, qualifierWords.lookup w, storageWords.lookup w with
    | some t, _, _ =>
      require (ws.type.isNone && !sp.isDeduced)
      skip
      return some { ws with words := t :: ws.words }
    | none, some q, _ =>
      if w = "restrict" && !(← get).dialect.words.contains w then return none
      skip
      if w = "_Atomic" && (← isNext "(") then
        require isFree
        return some { ws with type := some (← typeofType r) }
      return some { ws with given.quals := sp.quals.union q }
    | none, none, some st =>
      require (sp.storage.isNone && !(sp.isThread && st ≠ .static && st ≠ .external))
      skip
      return some { ws with given.storage := some st }
    | none, none, none =>
      if inlineWords.contains w && (w ≠ "inline" || (← get).dialect.words.contains w) then
        skip
        return some { ws with given.isInline := true }
      else if threadWords.contains w then
        require (sp.storage.all fun s => s = .static || s = .external)
        skip
        return some { ws with given.isThread := true }
      else if attributeWords.contains w then
        skip
        return some { ws with given.attributes := sp.attributes.union (← attributeList r) }
      else if w = "_Noreturn" then
        skip
        return some ws
      else if w = "_Alignas" then
        skip
        let align ← do
          if ← castNext then
            let (_, t) ← typeofType r
            pure (t.alignOf (← records))
          else
            expect "("
            let n ← integerConstant (← r.conditional)
            expect ")"
            require (0 ≤ n && (n.toNat &&& (n.toNat - 1)) = 0)
            pure n.toNat
        return some { ws with given.attributes := sp.attributes.union { align } }
      else if tagWords.contains w then
        require isFree
        skip
        return some { ws with type := some ({}, ← tagged r w) }
      else if typeofWords.contains w && (w ≠ "typeof" || (← get).dialect.words.contains w) then
        require isFree
        skip
        return some { ws with type := some (← typeofType r) }
      else if w = "__auto_type" then
        require isFree
        skip
        return some { ws with given.isDeduced := true }
      else if isFree && !sp.isDeduced then
        match ← meaning? w with
        | some (.type q t) =>
          skip
          return some { ws with type := some (q, t) }
        | some _ => return none
        | none =>
          if w = "__builtin_va_list" then
            skip
            return some { ws with type := some ({}, .array {} (.record 0) (.known 1)) }
          else return none
      else return none
  | _ => return none

/-- Reads the words of a declaration up to the declared name. Without a word for a type, integers
are meant. -/
def specifiers (r : Readers) : Reading Specifiers := do
  let ws ← improve {} (word r)
  let sp := ws.given
  match ws.type with
  | some (q, t) =>
    require ws.words.isEmpty
    return { sp with quals := sp.quals.union q, type := t.qualified sp.quals }
  | none =>
    if sp.isDeduced then return sp
    else if ws.words.isEmpty then
      warn "implicit-int"
      require !(← get).dialect.isPlus
      return { sp with isTypeless := true }
    else return { sp with type := ← demand (basicType? ws.words) }

end Reading

end LoopNest.Compiler
