import LoopNest.Compiler.Predefined

/-!
# Defined names

Defined names are replaced by what they stand for, which is looked through again. A name is not
replaced inside of its own replacement. In the replacement of a name with parameters, a number sign
turns an argument into a string, and two of them join the tokens beside them.
-/

namespace LoopNest.Compiler

/-- The definitions of a source by name, where a name may also be defined no longer, and the names
that must not be used. -/
structure Definitions where
  own : Std.HashMap String (Option Definition) := {}
  poisoned : List String := []
deriving Inhabited

namespace Definitions

def find? (ds : Definitions) (w : String) : Option Definition :=
  match ds.own.get? w with
  | some d => d
  | none => if w.startsWith "_" then Predefined.table.get? w else none

/-- Gives a name a meaning. -/
def define (ds : Definitions) (w : String) (d : Definition) : Definitions :=
  { ds with own := ds.own.insert w (some d) }

/-- Takes the meaning of a name away. -/
def undefine (ds : Definitions) (w : String) : Definitions :=
  { ds with own := ds.own.insert w none }

/-- The names that stand for something different at each place. -/
def moving : List String :=
  ["__LINE__", "__FILE__", "__COUNTER__", "__DATE__", "__TIME__", "__TIMESTAMP__",
    "__INCLUDE_LEVEL__", "__BASE_FILE__", "__FILE_NAME__", "_Pragma", "__has_include",
    "__has_include_next", "__has_attribute", "__has_cpp_attribute", "__has_builtin"]

def has (ds : Definitions) (w : String) : Bool :=
  (ds.find? w).isSome || (ds.own.get? w).isNone && (moving.erase "_Pragma").contains w

/-- What follows an opening bracket, cut at the commas outside of further brackets. All that follows
as many commas as `limit` says stays together. The arguments come last one first, with the closing
bracket and what follows it. -/
def arguments (limit : Nat) (depth : Nat) (current : List Lexeme) (done : List (List Lexeme)) :
    List Lexeme → Option (List (List Lexeme) × Lexeme × List Lexeme)
  | [] => none
  | t :: ts =>
    match t.token with
    | .mark "(" => arguments limit (depth + 1) (t :: current) done ts
    | .mark ")" =>
      match depth with
      | 0 => some (current.reverse :: done, t, ts)
      | depth + 1 => arguments limit depth (t :: current) done ts
    | .mark "," =>
      if depth = 0 && done.length < limit then arguments limit 0 [] (current.reverse :: done) ts
      else arguments limit depth (t :: current) done ts
    | _ => arguments limit depth (t :: current) done ts

/-- The token that two tokens make. There is none if they make no single token. -/
def joined? (x y : Lexeme) : Option Lexeme :=
  if x.token = .empty then some { y with spaced := x.spaced }
  else if y.token = .empty then some x
  else match Token.ofLine ["L"] x.line (x.token.spelling ++ y.token.spelling).toList with
    | [t] =>
      match t.token with
      | .stray _ => none
      | _ => some { t with spaced := x.spaced, painted := x.painted.filter y.painted.contains }
    | _ => none

def quoted (t : Token) : String :=
  match t with
  | .text .. | .character .. => String.ofList (t.spelling.toList.flatMap fun c =>
      if c == '"' || c == '\\' then ['\\', c] else [c])
  | t => t.spelling

def stringOf (ts : List Lexeme) : Token :=
  .text "" (String.join ((ts.zipIdx).map fun (t, i) =>
    if t.spaced && 0 < i then " " ++ quoted t.token else quoted t.token))

/-- An argument of a definition, as it is given and with its own names replaced. -/
structure Argument where
  param : String
  given : List Lexeme
  replaced : List Lexeme
  /-- The argument stands for all further arguments. -/
  isRest : Bool
deriving Inhabited

def argument? (args : List Argument) (t : Lexeme) : Option Argument :=
  match t.token with
  | .word w => args.find? (·.param == w)
  | _ => none

/-- Tokens beside a mark that joins, which are never none. -/
def beside (t : Lexeme) : List Lexeme → List Lexeme
  | [] => [{ t with token := .empty }]
  | x :: xs => { x with spaced := t.spaced } :: xs

/-- Puts arguments in the place of parameters. The result comes last token first. The fuel bounds
the number of tokens. -/
def substitute (args : List Argument) (hasParams : Bool) (fuel : Nat) (done body : List Lexeme) :
    Option (List Lexeme) :=
  match fuel, body with
  | 0, _ | _, [] => some done
  | fuel + 1, t :: rest =>
    let isNext (m : String) : Bool := rest.head?.any (·.token == .mark m)
    match t.token, rest with
    | .mark "##", u :: rest =>
      let right := match argument? args u with
        | some a => beside u a.given
        | none => [u]
      let isRest := (argument? args u).any (·.isRest)
      match done, right with
      | x :: before, y :: more =>
        if isRest && x.token = .mark "," then
          if y.token = .empty then substitute args hasParams fuel before rest
          else substitute args hasParams fuel (right.reverse ++ done) rest
        else do
          let z ← joined? x y
          substitute args hasParams fuel (more.reverse ++ z :: before) rest
      | _, _ => none
    | .mark "#", u :: after =>
      match hasParams, argument? args u with
      | true, some a => substitute args hasParams fuel ({ t with token := stringOf a.given } :: done) after
      | _, _ => substitute args hasParams fuel (t :: done) rest
    | .word "__VA_OPT__", u :: inside =>
      match u.token, args.find? (·.isRest), arguments 0 0 [] [] inside with
      | .mark "(", some a, some ([kept], _, after) =>
        substitute args hasParams fuel done (if a.replaced.isEmpty then after else kept ++ after)
      | _, _, _ => substitute args hasParams fuel (t :: done) rest
    | _, rest =>
      match argument? args t with
      | some a =>
        let ts := if isNext "##" then beside t a.given
          else match a.replaced with
            | [] => []
            | x :: xs => { x with spaced := t.spaced } :: xs
        substitute args hasParams fuel (ts.reverse ++ done) rest
      | none => substitute args hasParams fuel (t :: done) rest

/-- The arguments of a definition by their parameters. There are none if their number is wrong. -/
def pair? (d : Definition) (params : List String) (given : List (List Lexeme)) :
    Option (List (String × List Lexeme × Bool)) :=
  let given := if params.isEmpty && given.all List.isEmpty && given.length = 1 then [] else given
  let given := if d.isVariadic && given.length + 1 = params.length then given ++ [[]] else given
  if given.length ≠ params.length then none
  else some ((params.zip given).zipIdx.map fun ((p, ts), i) =>
    (p, ts, d.isVariadic && i + 1 = params.length))

/-- What a name that is different at each place stands for, given how often names have been
counted. -/
def placed? (w : String) (line counter : Nat) : Option (Token × Nat) :=
  match w with
  | "__LINE__" => some (.number (toString line), counter)
  | "__COUNTER__" => some (.number (toString counter), counter + 1)
  | "__FILE__" | "__BASE_FILE__" | "__FILE_NAME__" => some (.text "" "kernel.c", counter)
  | "__DATE__" => some (.text "" "Jan  1 2024", counter)
  | "__TIME__" => some (.text "" "00:00:00", counter)
  | "__TIMESTAMP__" => some (.text "" "Mon Jan  1 00:00:00 2024", counter)
  | "__INCLUDE_LEVEL__" => some (.number "0", counter)
  | _ => none

/-- Replaces defined names. The result comes last token first, with the number of names counted so
far. There is none if a name has the wrong number of arguments or must not be used. -/
def expand (ds : Definitions) (fuel counter : Nat) (done : List Lexeme) (tokens : List Lexeme) :
    Option (List Lexeme × Nat) :=
  match fuel, tokens with
  | 0, _ => none
  | _, [] => some (done, counter)
  | fuel + 1, t :: rest =>
    match t.token with
    | .word w =>
      if t.painted.contains w then expand ds fuel counter (t :: done) rest
      else if ds.poisoned.contains w then none
      else match ds.find? w with
        | none =>
          match placed? w t.line counter with
          | some (token, counter) =>
            if (ds.own.get? w).isSome then expand ds fuel counter (t :: done) rest
            else expand ds fuel counter ({ t with token } :: done) rest
          | none => expand ds fuel counter (t :: done) rest
        | some d =>
          let placed (painted : List String) (ts : List Lexeme) : List Lexeme :=
            (ts.reverse.filter (·.token ≠ .empty)).zipIdx.map fun (u, i) =>
              { u with
                line := t.line
                spaced := if i = 0 then t.spaced else u.spaced
                painted := painted ++ u.painted }
          match d.params, rest with
          | none, rest => do
            let ts ← substitute [] false (d.body.length + 1) [] d.body
            expand ds fuel counter done (placed (w :: t.painted) ts ++ rest)
          | some params, u :: after =>
            if u.token = .mark "(" then do
              let limit := if d.isVariadic then params.length - 1 else after.length
              let (given, closing, after) ← arguments limit 0 [] [] after
              let pairs ← pair? d params given.reverse
              let (args, counter) ← pairs.foldlM (fun (args, counter) (p, ts, isRest) => do
                let (replaced, counter) ← expand ds fuel counter [] ts
                return (args ++ [⟨p, ts, replaced.reverse, isRest⟩], counter))
                (([] : List Argument), counter)
              let ts ← substitute args true (8 * d.body.length + 8) [] d.body
              let painted := w :: t.painted.filter closing.painted.contains
              expand ds fuel counter done (placed painted ts ++ after)
            else expand ds fuel counter (t :: done) rest
          | some _, [] => expand ds fuel counter (t :: done) rest
    | _ => expand ds fuel counter (t :: done) rest

end Definitions

end LoopNest.Compiler
