import LoopNest.Toml.Value

/-!
# Documents under construction

While a document is read, keys are stored below the header in force. A table that came to be only
because something was stored below it is implicit: it may still be defined once by itself. Of the
other keys only those of arrays may be stored again.
-/

namespace LoopNest.Toml

/-- A document under construction. -/
structure Draft where
  root : Value := .table []
  /-- The path of the table in which keys are stored. -/
  context : Key := []
  implicit : List Key := []
  /-- The paths that hold an array between brackets. -/
  arrays : List Key := []
  /-- The keys in the order in which they stand in the document. -/
  order : List Key := []
deriving Inhabited

namespace Draft

def markImplicit (d : Draft) (path : Key) : Draft := { d with implicit := path :: d.implicit }

def unmarkImplicit (d : Draft) (path : Key) : Draft :=
  { d with implicit := d.implicit.filter (· ≠ path) }

def note (d : Draft) (path : Key) : Draft := { d with order := d.order ++ [path] }

/-- Records whether the value of a key in the context is an array between brackets. An empty key
stands for the context itself, unless that is the whole document. -/
def setArray (d : Draft) (key : String) (isArray : Bool) : Draft :=
  let path := if key.isEmpty then (if d.context.isEmpty then [""] else d.context)
    else d.context ++ [key]
  let others := d.arrays.filter (· ≠ path)
  { d with arrays := if isArray then path :: others else others }

/-- Stores a value in the context. A present key takes the new value if it is an array or becomes
one. An implicit one keeps its value, and any other is refused. -/
def put (d : Draft) (key : String) (v : Value) : Option Draft := do
  let path := d.context ++ [key]
  let entries ← d.root.entriesAt? d.context
  let stored : Option Draft := do
    return { d with root := ← d.root.modifyAt (fun es => some (Value.store key v es)) d.context }
  match entries.lookup key with
  | none => stored
  | some _ =>
    if d.arrays.contains path then return (← stored).unmarkImplicit path
    else if d.implicit.contains path then return d.unmarkImplicit path
    else none

/-- Makes sure that there is a table at each step of a path, `walked` being the steps so far. -/
def ensure (d : Draft) (walked : Key) : Key → Option Draft
  | [] => some d
  | k :: ks => do
    let entries ← d.root.entriesAt? walked
    let path := walked ++ [k]
    let d ← match entries.lookup k with
      | none => do
        let root ← d.root.modifyAt (fun es => some (Value.store k (.table []) es)) walked
        pure { d.markImplicit path with root }
      | some (.table _) | some (.tables _) => some d
      | some _ => none
    d.ensure path ks

/-- Adds a table to the tables made by headers at a key. -/
def appendTable (key : String) (entries : List (String × Value)) : Option (List (String × Value)) :=
  match entries.lookup key with
  | none => some (Value.store key (.tables [.table []]) entries)
  | some (.tables all) => some (Value.store key (.tables (all ++ [.table []])) entries)
  | some _ => none

/-- Enters the table at a path, which is made by it, or one more table of the tables at a path. -/
def enter (d : Draft) (path : Key) (more : Bool) : Option Draft := do
  let last ← path.getLast?
  let outer := path.dropLast
  let d ← d.ensure [] outer
  let d := { d with context := outer }
  let d ←
    if more then
      let root ← d.root.modifyAt (appendTable last) outer
      pure { d with root }
    else d.put last (.table [])
  return { d with context := path }

/-- Enters, one by one, the implicit tables of the parts of a dotted key. -/
def enterImplicit (d : Draft) : Key → Option Draft
  | [] => some d
  | k :: ks => do
    let path := d.context ++ [k]
    (← (d.markImplicit path).enter path false).enterImplicit ks

end Draft

end LoopNest.Toml
