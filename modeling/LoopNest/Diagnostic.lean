import LoopNest.Text.Lines
import LoopNest.Text.Printable

/-!
# Diagnostics

What went wrong, as a tree: a cause at the leaves, and around it the statement it belongs to, the
step that failed, or the mark of an internal error. `Diagnostic.message` is the one place where
the wording of the wrappers is fixed.
-/

namespace LoopNest

/-- An error with the contexts it passed through. -/
inductive Diagnostic where
  | cause (text : String)
  /-- The foreign compiler failed. -/
  | build (command : List String) (output source reason : String)
  /-- The shared library could not be loaded. -/
  | load (path reason : String)
  /-- The shared library has no such symbol. -/
  | missingSymbol (name path reason : String)
  /-- A text that cannot be decoded. -/
  | undecodable (what : String)
  /-- Not every argument has a buffer. -/
  | unbound
  /-- The kernel is not loaded. -/
  | notLoaded
  /-- The kernel has no such argument. -/
  | unknownArgument
  /-- A violated invariant of the compiler itself. -/
  | internal (inner : Diagnostic)
  | statement (index : Int) (dst : String) (inner : Diagnostic)
  /-- An error with what was being done in front of it. -/
  | context (text : String) (inner : Diagnostic)
  /-- Several errors found by one check. -/
  | several (all : List Diagnostic)
  /-- An error that shows where it was made when it is printed in full. -/
  | traced (inner : Diagnostic)
deriving Inhabited

/-- A computation stops because it met a malformed structure, or because of an error. -/
inductive Failure where
  | fault
  | error (d : Diagnostic)
deriving Inhabited

namespace Diagnostic

/-- The text in front of every internal error. -/
def internalHeading : String :=
  "tensorc internal error. This is a bug in tensorc. Please report it. Error:\n"

mutual
def message : Diagnostic → String
  | .cause text | .undecodable text => text
  | .unbound => "kernel arguments are not all bound"
  | .notLoaded => "kernel is not loaded"
  | .unknownArgument => "unknown kernel argument"
  | .build command output _ reason =>
    "cannot build kernel: " ++ " ".intercalate command ++ ": " ++ reason ++ "\n"
      ++ Text.indentSkip 0 "  " output
  | .load path reason => s!"cannot load {path}: {reason}"
  | .missingSymbol name path reason => s!"cannot find symbol {name} in {path}: {reason}"
  | .internal d => internalHeading ++ d.message
  | .statement i dst d => s!"statement {i} ({dst}): " ++ d.message
  | .context text d => text ++ ": " ++ d.message
  | .several ds => "; ".intercalate (messages ds)
  | .traced d => d.message

/-- The texts of several errors. -/
def messages : List Diagnostic → List String
  | [] => []
  | d :: ds => d.message :: messages ds
end

mutual
/-- Whether some error of the tree satisfies a test. -/
def any (p : Diagnostic → Bool) : Diagnostic → Bool
  | d@(.internal i) | d@(.statement _ _ i) | d@(.context _ i) | d@(.traced i) => p d || i.any p
  | d@(.several ds) => p d || anyOf p ds
  | d => p d

/-- Whether some error of a list of trees satisfies a test. -/
def anyOf (p : Diagnostic → Bool) : List Diagnostic → Bool
  | [] => false
  | d :: ds => d.any p || anyOf p ds
end

/-- Whether the error, or an error inside it, is marked as internal. -/
def isInternal (d : Diagnostic) : Bool :=
  d.any fun
    | .internal _ => true
    | _ => false

mutual
/-- The first error of the tree that comes from building or loading a library. -/
def native? : Diagnostic → Option Diagnostic
  | d@(.build ..) | d@(.load ..) | d@(.missingSymbol ..) => some d
  | .internal i | .statement _ _ i | .context _ i | .traced i => i.native?
  | .several ds => nativeOf? ds
  | _ => none

/-- The first error of several trees that comes from building or loading a library. -/
def nativeOf? : List Diagnostic → Option Diagnostic
  | [] => none
  | d :: ds => d.native? <|> nativeOf? ds
end

/-- Marks an error as internal unless it is so already. -/
def markInternal (d : Diagnostic) : Diagnostic := if d.isInternal then d else .internal d

def internalError (text : String) : Diagnostic := .internal (.cause text)

/-- Adds an error to those found so far. -/
def append : Option Diagnostic → Diagnostic → Diagnostic
  | none, d => d
  | some (.several ds), .several es => .several (ds ++ es)
  | some (.several ds), d => .several (ds ++ [d])
  | some d, .several es => .several (d :: es)
  | some d, e => .several [d, e]

/-- One error for all those found; none when there are none. -/
def combine : List Diagnostic → Option Diagnostic
  | [] => none
  | [d] => some d
  | ds => some (.several ds)

/-- The text of an error with the source of a failed build, its lines numbered. -/
def verbose : Diagnostic → String
  | d@(.build _ _ source _) => d.message ++ "\nSource:\n" ++ Text.indent (Text.number source)
  | d => d.message

/-- Whether printing the error in full shows where it was made. -/
def showsOrigin : Diagnostic → Bool
  | .internal _ | .statement .. | .traced _ => true
  | _ => false

/-- The text as it is quoted: several errors are never put in quotes. -/
def quoted : Diagnostic → String
  | d@(.several _) => d.message
  | d => Text.quote d.message

end Diagnostic

/-- Changes the error of a failure; a fault stays a fault. -/
def Failure.map (f : Diagnostic → Diagnostic) : Failure → Failure
  | .fault => .fault
  | .error d => .error (f d)

/-- A computation without a result is a fault. -/
def orFault : Option τ → Except Failure τ
  | none => .error .fault
  | some x => .ok x

def inContext (f : Diagnostic → Diagnostic) : Except Failure τ → Except Failure τ
  | .ok x => .ok x
  | .error e => .error (e.map f)

end LoopNest
