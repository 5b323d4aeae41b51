import LoopNest.Proofs.Code.Literals
import LoopNest.Proofs.Code.Vocabulary

/-!
# Texts of statements

The lines of statements are read back as the statements (`Stmt.block?_renderAll`). Only the literals look
different: what is read has the numbers that the digits stand for, and quotients in place of what is not
finite. The proof follows the text from left to right: what is read of an expression does not depend on
what stands around it (`Reads`), a statement is read line by line, and a loop is put together at its last
line. Where the numbers have the values of the literals, what is read runs like what was written
(`Stmt.runAll_reading`).
-/

namespace LoopNest.C

open Compiler (Token)

/-! ## What is read -/

section

variable (constant : String → Float)

/-- What a literal is read as. -/
def literalExpr (v : Float) : Expr :=
  if v.isNaN then .arith .div (.literal (constant "0.0")) (.literal (constant "0.0"))
  else if v.isInf then
    .arith .div (.literal (constant (if v < 0 then "-1.0" else "1.0"))) (.literal (constant "0.0"))
  else .literal (constant (literalDigits v))

/-- What an expression is read as. -/
def Expr.reading : Expr → Expr
  | .literal v => literalExpr constant v
  | .element e => .element e
  | .temp n => .temp n
  | .arith op x y => .arith op x.reading y.reading

mutual
/-- What a statement is read as. -/
def Stmt.reading : Stmt → Stmt
  | .loop index extent body => .loop index extent (Stmt.readingAll body)
  | .declare temp value => .declare temp (value.reading constant)
  | .store dst value => .store dst (value.reading constant)
  | .clear dst => .clear dst
  | .accumulate dst x y => .accumulate dst (x.reading constant) (y.reading constant)

/-- What several statements are read as. -/
def Stmt.readingAll : List Stmt → List Stmt
  | [] => []
  | s :: ss => s.reading :: Stmt.readingAll ss
end

end

/-- The vocabulary that can be read. -/
def Vocabulary.words : Vocabulary := ⟨IsWord, fun _ => True⟩

variable {constant : String → Float}

/-! ## What reading keeps -/

theorem Expr.tensors_literalExpr (v : Float) : (literalExpr constant v).tensors = [] := by
  rw [literalExpr]
  split
  · rfl
  · split <;> rfl

theorem Expr.tensors_reading (e : Expr) : (e.reading constant).tensors = e.tensors := by
  induction e with
  | literal v => exact tensors_literalExpr v
  | element | temp => rfl
  | arith op x y ihx ihy => rw [reading, tensors, ihx, ihy, tensors]

mutual
theorem Stmt.tensors_reading : (s : Stmt) → (s.reading constant).tensors = s.tensors
  | .loop _ _ body => Stmt.tensorsAll_reading body
  | .declare _ value => Expr.tensors_reading value
  | .store dst value => congrArg (dst.tensor :: ·) (Expr.tensors_reading value)
  | .clear _ => rfl
  | .accumulate dst x y => by
    rw [Stmt.reading, Stmt.tensors, Expr.tensors_reading, Expr.tensors_reading, Stmt.tensors]

theorem Stmt.tensorsAll_reading :
    (ss : List Stmt) → Stmt.tensorsAll (Stmt.readingAll constant ss) = Stmt.tensorsAll ss
  | [] => rfl
  | s :: ss => by
    rw [Stmt.readingAll, Stmt.tensorsAll, Stmt.tensors_reading s, Stmt.tensorsAll_reading ss, Stmt.tensorsAll]
end

section

variable {α : Type} [Scalar α]

/-- The numbers that stand for a literal have its value. -/
def FaithfulAt (α : Type) [Scalar α] (constant : String → Float) (v : Float) : Prop :=
  ∀ (f : Locals α) (arrays : Arrays α), (literalExpr constant v).eval f arrays = some (Scalar.literal v)

variable {V : Vocabulary} {f : Locals α} {arrays : Arrays α}

theorem Expr.eval_reading (hV : ∀ v, V.literal v → FaithfulAt α constant v) {e : Expr} (h : e.Uses V) :
    (e.reading constant).eval f arrays = e.eval f arrays := by
  induction e with
  | literal v => exact hV v h f arrays
  | element | temp => rfl
  | arith op x y ihx ihy => rw [reading, eval, ihx h.1, ihy h.2, eval]

mutual
/-- A statement runs as it is read. -/
theorem Stmt.run_reading (hV : ∀ v, V.literal v → FaithfulAt α constant v) (round : α → α) {f : Locals α}
    {arrays : Arrays α} : (s : Stmt) → s.Uses V →
    (s.reading constant).run round f arrays = s.run round f arrays
  | .loop index extent body, h => by
    have hbody : ∀ (i : Int) (arrays : Arrays α),
        Stmt.runAll round { f with indices := (index, i) :: f.indices } arrays (Stmt.readingAll constant body) =
          Stmt.runAll round { f with indices := (index, i) :: f.indices } arrays body :=
      fun i arrays => Stmt.runAll_reading hV round body h.2
    rw [Stmt.reading, Stmt.run, Stmt.run]
    simp only [hbody]
  | .declare n value, h => by rw [Stmt.reading, Stmt.run, Expr.eval_reading hV h, Stmt.run]
  | .store dst value, h => by rw [Stmt.reading, Stmt.run, Expr.eval_reading hV h.2, Stmt.run]
  | .clear dst, _ => rfl
  | .accumulate dst x y, h => by
    rw [Stmt.reading, Stmt.run, Expr.eval_reading hV h.2.1, Expr.eval_reading hV h.2.2, Stmt.run]

theorem Stmt.runAll_reading (hV : ∀ v, V.literal v → FaithfulAt α constant v) (round : α → α) {f : Locals α}
    {arrays : Arrays α} : (ss : List Stmt) → Stmt.UsesAll V ss →
    Stmt.runAll round f arrays (Stmt.readingAll constant ss) = Stmt.runAll round f arrays ss
  | [], _ => rfl
  | s :: ss, h => by
    rw [Stmt.readingAll, Stmt.runAll, Stmt.runAll, Stmt.run_reading hV round s h.1]
    refine congrArg _ (funext fun r => ?_)
    exact Stmt.runAll_reading hV round ss h.2
end

end

/-! ## Names -/

theorem tensor?_arrayName (tensor : String) : tensor? (arrayName tensor) = some tensor := by
  simp [tensor?, arrayName]

theorem isName_arrayName {tensor : String} (h : IsWord tensor) : IsName (arrayName tensor) :=
  IsName.append (by decide) h

theorem temp?_tempName (n : Nat) : temp? (tempName n) = some n := by
  have htext : (tempName n).toList = 's' :: n.repr.toList := String.toList_append
  rw [temp?, htext]
  exact (congrArg decimal? String.ofList_toList).trans (decimal?_repr n)

theorem isWord_natural (n : Nat) : IsWord n.repr := fun c hc =>
  isNameChar_of_isDigit (isDigit_toDigits n c (Nat.toList_repr ▸ hc))

theorem isName_tempName (n : Nat) : IsName (tempName n) := IsName.append (s := "s") (by decide) (isWord_natural n)

/-- No word of a file is a letter with digits behind it, starts like the names that kernels have by
default, or ends like those of entry points. -/
theorem reserved_spares : ∀ w ∈ reserved, w.toList.tail.all Char.isDigit = false ∧
    "tensorc_".toList.isPrefixOf w.toList = false ∧ "_entry".toList.isSuffixOf w.toList = false := by
  decide +kernel

/-- Numbered names are names of indices, unless they look like temporaries or arrays. -/
theorem isIndex_numbered {c : Char} (n : Nat) (hs : c ≠ 's') (ht : c ≠ 't') :
    isIndex (NameSupply.numbered (String.singleton c) n) = true := by
  have htext : (NameSupply.numbered (String.singleton c) n).toList = c :: Nat.toDigits 10 n := by
    simp [NameSupply.numbered, Nat.toList_repr]
  have hreserved : reserved.contains (NameSupply.numbered (String.singleton c) n) = false := by
    refine Bool.eq_false_iff.mpr fun hmem => ?_
    have hdigits := (reserved_spares _ (List.contains_iff_mem.mp hmem)).1
    rw [htext, List.tail_cons, List.all_eq_true.mpr (isDigit_toDigits n)] at hdigits
    cases hdigits
  rw [isIndex, hreserved, tensor?, temp?, htext]
  split <;> split <;> simp_all

theorem IsLoop.isIndex {name : String} (h : IsLoop name) : isIndex name = true := by
  rcases h with rfl | ⟨t, rfl | rfl⟩
  · exact isIndex_numbered (c := 'f') 0 (by decide) (by decide)
  · exact isIndex_numbered (c := 'i') t (by decide) (by decide)
  · exact isIndex_numbered (c := 'k') t (by decide) (by decide)

theorem IsLoop.isName {name : String} (h : IsLoop name) : IsName name := by
  rcases h with rfl | ⟨t, rfl | rfl⟩
  · decide
  · exact IsName.append (s := "i") (by decide) (isWord_natural t)
  · exact IsName.append (s := "k") (by decide) (isWord_natural t)

/-! ## One token after the other -/

section

variable {outer : List Pending} {s : Pending} {tensor w : String} {steps : List (Index × Int)} {o : Offset}
variable {e : Expr} {ts : List Token}

@[simp] theorem operand?_nil : operand? constant outer s [] = none := rfl

@[simp] theorem operand?_brace : operand? constant outer s (.mark "\x7d" :: ts) = none := rfl

@[simp] theorem operand?_number : operand? constant outer s (.number w :: ts) =
    if isDouble w then operator? constant outer s (.literal (constant w)) ts else none := rfl

@[simp] theorem operand?_minus : operand? constant outer s (.mark "-" :: .number w :: ts) =
    if isDouble w then operator? constant outer s (.literal (constant ("-" ++ w))) ts else none := rfl

@[simp] theorem operand?_open : operand? constant outer s (.mark "(" :: ts) =
    operand? constant (s :: outer) {} ts := rfl

@[simp] theorem operand?_element : operand? constant outer s (.word w :: .mark "[" :: ts) =
    (tensor? w).bind fun tensor => index? constant outer s tensor [] ts := rfl

theorem operand?_word (h : ∀ ts', ts ≠ .mark "[" :: ts') : operand? constant outer s (.word w :: ts) =
    (temp? w).bind fun n => operator? constant outer s (.temp n) ts := by
  rw [operand?]
  · rfl
  · exact h

theorem operator?_sign (op : ArithOp) : operator? constant outer s e (.mark op.sign :: ts) =
    operand? constant outer (s.push e op) ts := by
  cases op <;> rfl

theorem operator?_close {o : Pending} : operator? constant (o :: outer) s e (.mark ")" :: ts) =
    operator? constant outer o (s.value e) ts := rfl

theorem operator?_stop {m : String} (hm : arithOf? m = none) :
    operator? constant [] s e (.mark m :: ts) = some (s.value e, .mark m :: ts) := by
  simp only [operator?, hm]

@[simp] theorem index?_word : index? constant outer s tensor steps (.word w :: ts) =
    if isIndex w then position? constant outer s tensor steps (.index (.loop w)) ts else none := rfl

@[simp] theorem index?_number : index? constant outer s tensor steps (.number w :: ts) =
    (decimal? w).bind fun k => position? constant outer s tensor steps (.index (.fixed k)) ts := rfl

@[simp] theorem position?_number {i : Index} : position? constant outer s tensor steps (.index i)
      (.mark "+" :: .number w :: .mark "*" :: .mark "(" :: ts) =
    (decimal? w).bind fun k => index? constant outer s tensor ((i, (k : Int)) :: steps) ts := rfl

@[simp] theorem position?_minus {i : Index} : position? constant outer s tensor steps (.index i)
      (.mark "+" :: .mark "-" :: .number w :: .mark "*" :: .mark "(" :: ts) =
    (decimal? w).bind fun k => index? constant outer s tensor ((i, -(k : Int)) :: steps) ts := rfl

@[simp] theorem position?_close {i : Index} {extent : Int} :
    position? constant outer s tensor ((i, extent) :: steps) o (.mark ")" :: ts) =
      position? constant outer s tensor steps (.step i extent o) ts := rfl

@[simp] theorem position?_end : position? constant outer s tensor [] o (.mark "]" :: ts) =
    operator? constant outer s (.element ⟨tensor, o⟩) ts := rfl

end

/-! ## Addresses -/

section

variable {outer : List Pending} {s : Pending} {tensor : String} {steps : List (Index × Int)}

theorem index?_tokens {i : Index} (hi : i.Usual) (ts : List Token) :
    index? constant outer s tensor steps (i.tokens ++ ts) =
      position? constant outer s tensor steps (.index i) ts := by
  cases i with
  | loop name => rw [Index.tokens, List.singleton_append, index?_word, IsLoop.isIndex hi, if_pos rfl]
  | fixed k =>
    obtain ⟨n, rfl⟩ := Int.eq_ofNat_of_zero_le hi
    simp [Index.tokens, intTokens, decimal?_repr]

theorem position?_step (i : Index) (extent : Int) (ts : List Token) :
    position? constant outer s tensor steps (.index i)
        (.mark "+" :: (intTokens extent ++ .mark "*" :: .mark "(" :: ts)) =
      index? constant outer s tensor ((i, extent) :: steps) ts := by
  cases extent with
  | ofNat n => simp [intTokens, decimal?_repr]
  | negSucc n =>
    have hneg : Int.negSucc n = -((n + 1 : Nat) : Int) := rfl
    simp only [intTokens, List.cons_append, List.nil_append, position?_minus, Nat.toString_eq_repr,
      decimal?_repr, hneg]
    rfl

/-- An address is read as it is, by induction on its nesting: the indices and extents that have been read
wait for the position that they go with. -/
theorem index?_render {o : Offset} (ho : o.Usual) {rest : List Char} (hends : Ends rest) :
    index? constant outer s tensor steps (cut (o.render.toList ++ rest)) =
      position? constant outer s tensor steps o (cut rest) := by
  induction o generalizing steps rest with
  | index i =>
    have hi : i.Usual := ho i (.head _)
    rw [Offset.render, cut_index (fun name hname => IsLoop.isName (by rw [hname] at hi; exact hi)) hends,
      index?_tokens hi]
  | step i extent inner ih =>
    have hi : i.Usual := ho i (.head _)
    have hinner : inner.Usual := fun j hj => ho j (List.mem_cons_of_mem _ hj)
    have hname : ∀ name, i = .loop name → IsName name := fun name hname =>
      IsLoop.isName (by rw [hname] at hi; exact hi)
    simp only [Offset.render, String.toList_append, List.append_assoc]
    rw [cut_index hname (by simp), index?_tokens hi]
    simp [position?_step, ih hinner]

end

/-! ## Expressions -/

/-- What follows an operand: no name goes on, and no bracket opens. -/
structure Follows (rest : List Char) : Prop where
  ends : Ends rest
  closed : ∀ ts, cut rest ≠ .mark "[" :: ts

/-- A text is read as an expression, whatever is in front of it. -/
def Reads (constant : String → Float) (text : String) (e : Expr) : Prop :=
  ∀ outer s rest, Follows rest → operand? constant outer s (cut (text.toList ++ rest)) =
    operator? constant outer s e (cut rest)

theorem Follows.mark {c : Char} {rest : List Char} (hends : Ends (c :: rest)) {m : String} {ts : List Token}
    (hcut : cut (c :: rest) = .mark m :: ts) (hm : m ≠ "[") : Follows (c :: rest) := by
  refine ⟨hends, fun ts' h => hm ?_⟩
  rw [hcut] at h
  cases h
  rfl

namespace Reads

theorem number {text w : String} (htext : text = w ∨ text = "-" ++ w) (hw : IsNumeral w)
    (hdouble : isDouble w = true) : Reads constant text (.literal (constant text)) := by
  intro outer s rest hrest
  rcases htext with rfl | rfl
  · rw [cut_numeral hw hrest.ends, operand?_number, hdouble, if_pos rfl]
  · rw [String.toList_append, List.append_assoc]
    refine (congrArg _ (cut_negative hw hrest.ends)).trans ?_
    rw [operand?_minus, hdouble, if_pos rfl]

theorem parens {text : String} {e : Expr} (h : Reads constant text e) :
    Reads constant ("(" ++ text ++ ")") e := by
  intro outer s rest hrest
  have hclose : Follows (')' :: rest) := .mark (by simp) (cut_marks rest).2.1 (by decide)
  simp [h _ _ _ hclose, operator?_close, Pending.value, complete]

theorem arith {x y : String} {e e' : Expr} (op : ArithOp) (hx : Reads constant x e)
    (hy : Reads constant y e') :
    Reads constant ("(" ++ x ++ " " ++ op.sign ++ " " ++ y ++ ")") (.arith op e e') := by
  intro outer s rest hrest
  have hclose : Follows (')' :: rest) := .mark (by simp) (cut_marks rest).2.1 (by decide)
  have hsign : cut (' ' :: (op.sign.toList ++ ' ' :: (y.toList ++ ')' :: rest))) =
      .mark op.sign :: cut (y.toList ++ ')' :: rest) := by
    cases op <;> simp [ArithOp.sign]
  have hgap : Follows (' ' :: (op.sign.toList ++ ' ' :: (y.toList ++ ')' :: rest))) :=
    .mark (by simp) hsign (by cases op <;> decide)
  have hvalue : ((({} : Pending).push e op).value e') = .arith op e e' := by cases op <;> rfl
  calc operand? constant outer s (cut (("(" ++ x ++ " " ++ op.sign ++ " " ++ y ++ ")").toList ++ rest))
    _ = operand? constant (s :: outer) {}
          (cut (x.toList ++ ' ' :: (op.sign.toList ++ ' ' :: (y.toList ++ ')' :: rest)))) := by
      simp
    _ = operator? constant (s :: outer) {} e (.mark op.sign :: cut (y.toList ++ ')' :: rest)) := by
      rw [hx _ _ _ hgap, hsign]
    _ = operator? constant (s :: outer) (({} : Pending).push e op) e' (.mark ")" :: cut rest) := by
      rw [operator?_sign, hy _ _ _ hclose, (cut_marks rest).2.1]
    _ = operator? constant outer s (.arith op e e') (cut rest) := by rw [operator?_close, hvalue]

theorem whole (c : Char) (text : String) (hc : c.isDigit = true) (htext : text.toList = [c, '.', '0']) :
    IsNumeral text ∧ isDouble text = true := by
  have hvalid : ({ front := [c], back := ['0'], exponent := [] } : Decimal.Parts).Valid :=
    ⟨by simp, by simpa using hc, by simp, by simp⟩
  exact ⟨hvalid.isNumeral htext, hvalid.isDouble (.inl (by simp)) htext⟩

/-- A quotient by zero, which stands for a value that is not finite. -/
theorem quotient {x : String} {e : Expr} (hx : Reads constant x e) :
    Reads constant ("(" ++ x ++ "/0.0)") (.arith .div e (.literal (constant "0.0"))) := by
  intro outer s rest hrest
  have hclose : Follows (')' :: rest) := .mark (by simp) (cut_marks rest).2.1 (by decide)
  obtain ⟨hnumeral, hdouble⟩ := whole '0' "0.0" rfl rfl
  have hzero : Reads constant "0.0" (.literal (constant "0.0")) := .number (.inl rfl) hnumeral hdouble
  have hsign : cut ('/' :: ("0.0".toList ++ ')' :: rest)) =
      .mark ArithOp.div.sign :: cut ("0.0".toList ++ ')' :: rest) := cut_slash (by decide) _
  have hslash : Follows ('/' :: ("0.0".toList ++ ')' :: rest)) := .mark (by simp) hsign (by decide)
  calc operand? constant outer s (cut (("(" ++ x ++ "/0.0)").toList ++ rest))
    _ = operand? constant (s :: outer) {} (cut (x.toList ++ '/' :: ("0.0".toList ++ ')' :: rest))) := by
      simp
    _ = operator? constant (s :: outer) {} e (.mark ArithOp.div.sign :: cut ("0.0".toList ++ ')' :: rest)) := by
      rw [hx _ _ _ hslash, hsign]
    _ = operator? constant (s :: outer) (({} : Pending).push e .div) (.literal (constant "0.0"))
          (.mark ")" :: cut rest) := by rw [operator?_sign, hzero _ _ _ hclose, (cut_marks rest).2.1]
    _ = _ := operator?_close

theorem element {e : Element} (h : e.Uses .words) : Reads constant e.render (.element e) := by
  intro outer s rest hrest
  simp only [Element.render, String.toList_append, List.append_assoc]
  rw [cut_name (isName_arrayName h.1) (by simp)]
  simp [tensor?_arrayName, index?_render h.2]

theorem temp (n : Nat) : Reads constant (tempName n) (.temp n) := by
  intro outer s rest hrest
  rw [cut_name (isName_tempName n) hrest.ends, operand?_word hrest.closed, temp?_tempName]
  rfl

theorem literal (v : Float) : Reads constant (renderLiteral v) (literalExpr constant v) := by
  have hnumber : ∀ (text : String) {w : String}, (text = w ∨ text = "-" ++ w) →
      IsNumeral w ∧ isDouble w = true → Reads constant text (.literal (constant text)) :=
    fun text w htext hw => number htext hw.1 hw.2
  rw [renderLiteral, literalExpr]
  cases hnan : v.isNaN with
  | true =>
    have h := quotient (hnumber "0.0" (.inl rfl) (whole '0' "0.0" rfl rfl))
    have htext : "(" ++ "0.0" ++ "/0.0)" = "(0.0/0.0)" := by decide
    simpa only [if_true, htext] using h
  | false =>
    cases hinf : v.isInf with
    | true =>
      simp only [Bool.false_eq_true, if_false, if_true]
      split
      · have h := quotient (hnumber "-1.0" (.inr (by decide)) (whole '1' "1.0" rfl rfl))
        have htext : "(" ++ "-1.0" ++ "/0.0)" = "(-1.0/0.0)" := by decide
        rwa [htext] at h
      · have h := quotient (hnumber "1.0" (.inl rfl) (whole '1' "1.0" rfl rfl))
        have htext : "(" ++ "1.0" ++ "/0.0)" = "(1.0/0.0)" := by decide
        rwa [htext] at h
    | false =>
      obtain ⟨w, htext, hw⟩ := literalDigits_spec hnan hinf
      have hfinite := hnumber _ htext hw
      simp only [Bool.false_eq_true, if_false]
      split
      · exact hfinite.parens
      · exact hfinite

end Reads

/-- The text of an expression is read as the expression, by induction. -/
theorem Expr.reads {e : Expr} (h : e.Uses .words) : Reads constant e.render (e.reading constant) := by
  induction e with
  | literal v => exact .literal v
  | element e => exact .element h
  | temp n => exact .temp n
  | arith op x y ihx ihy => exact .arith op (ihx h.1) (ihy h.2)

/-! ## Lines -/

theorem tokens_eq (line : String) : tokens line = cut line.toList := rfl

theorem toList_margin (depth : Nat) : (margin depth).toList = List.replicate (2 * (depth + 1)) ' ' := by
  have hpushn : ∀ n : Nat, ("".pushn ' ' n).toList = List.replicate n ' ' := by
    intro n
    induction n with
    | zero => rfl
    | succ n ih =>
      rw [String.pushn, Nat.repeat, String.toList_push, List.replicate_succ', ← ih]
      rfl
  exact hpushn _

@[simp] theorem cut_margin (depth : Nat) (rest : List Char) :
    cut ((margin depth).toList ++ rest) = cut rest := by
  rw [toList_margin, cut_replicate_blank]

@[simp] theorem cut_words (rest : List Char) :
    cut ('f' :: 'o' :: 'r' :: ' ' :: rest) = .word "for" :: cut rest ∧
    cut ('i' :: 'n' :: 't' :: ' ' :: rest) = .word "int" :: cut rest ∧
    cut ('v' :: 'o' :: 'i' :: 'd' :: ' ' :: rest) = .word "void" :: cut rest ∧
    cut ('a' :: 'r' :: 'g' :: 's' :: ')' :: rest) = .word "args" :: .mark ")" :: cut rest ∧
    cut ('a' :: 'r' :: 'g' :: 's' :: '[' :: rest) = .word "args" :: .mark "[" :: cut rest ∧
    cut ('f' :: 'r' :: 'e' :: 'e' :: '(' :: rest) = .word "free" :: .mark "(" :: cut rest ∧
    cut ('m' :: 'a' :: 'l' :: 'l' :: 'o' :: 'c' :: '(' :: rest) = .word "malloc" :: .mark "(" :: cut rest ∧
    cut ('s' :: 'i' :: 'z' :: 'e' :: 'o' :: 'f' :: '(' :: rest) = .word "sizeof" :: .mark "(" :: cut rest := by
  have hword : ∀ w c rest, IsName w → Ends (c :: rest) → cut (w.toList ++ c :: rest) =
      .word w :: cut (c :: rest) := fun w c rest hw hends => cut_name hw hends
  refine ⟨?_, ?_, ?_, ?_, ?_, ?_, ?_, ?_⟩
  · exact (hword "for" ' ' rest (by decide) (by simp)).trans (by simp)
  · exact (hword "int" ' ' rest (by decide) (by simp)).trans (by simp)
  · exact (hword "void" ' ' rest (by decide) (by simp)).trans (by simp)
  · exact (hword "args" ')' rest (by decide) (by simp)).trans (by simp)
  · exact (hword "args" '[' rest (by decide) (by simp)).trans (by simp)
  · exact (hword "free" '(' rest (by decide) (by simp)).trans (by simp)
  · exact (hword "malloc" '(' rest (by decide) (by simp)).trans (by simp)
  · exact (hword "sizeof" '(' rest (by decide) (by simp)).trans (by simp)

theorem integer?_tokens (k : Int) (ts : List Token) : integer? (intTokens k ++ ts) = some (k, ts) := by
  cases k with
  | ofNat n => simp [intTokens, integer?, decimal?_repr]
  | negSucc n =>
    have hneg : Int.negSucc n = -((n + 1 : Nat) : Int) := rfl
    simp only [intTokens, List.cons_append, List.nil_append, integer?, Nat.toString_eq_repr, decimal?_repr,
      hneg]
    rfl

theorem before?_append (finish ts : List Token) : before? finish (ts ++ finish) = some ts := by
  simp [before?]

/-- The types of elements. -/
def IsElementType (element : String) : Prop := element = "float" ∨ element = "double"

theorem IsElementType.isName {element : String} (h : IsElementType element) : IsName element := by
  rcases h with rfl | rfl <;> decide

theorem arrayName_ne {tensor w : String} (h : tensor? w = none) : arrayName tensor ≠ w := by
  rintro rfl
  rw [tensor?_arrayName] at h
  cases h

theorem IsElementType.ne_arrayName {element : String} (h : IsElementType element) (tensor : String) :
    element ≠ arrayName tensor := by
  rcases h with rfl | rfl <;> exact (arrayName_ne (by decide)).symm

theorem loop?_line {index : String} (h : IsLoop index) (depth : Nat) (extent : Int) :
    loop? (tokens (margin depth ++ "for (int " ++ index ++ " = 0; " ++ index ++ " < " ++ toString extent
      ++ "; " ++ index ++ "++) \x7b")) = some (index, extent) := by
  have hzero : ∀ rest, cut ('0' :: ';' :: rest) = .number "0" :: .mark ";" :: cut rest := fun rest => by
    rw [← (cut_marks rest).2.2.2.2.2.2.2.1]
    exact cut_natural 0 (by simp)
  simp [tokens_eq, cut_name h.isName, hzero, loop?, after?, word?, integer?_tokens, h.isIndex]

theorem expr?_render {e : Expr} (h : e.Uses .words) {rest : List Char} (hends : Ends rest) {m : String}
    {ts : List Token} (hcut : cut rest = .mark m :: ts) (hm : arithOf? m = none) (hopen : m ≠ "[") :
    expr? constant (cut (e.render.toList ++ rest)) = some (e.reading constant, .mark m :: ts) := by
  have hrest : Follows rest := ⟨hends, fun ts' h => hopen (by rw [hcut] at h; cases h; rfl)⟩
  rw [expr?, Expr.reads h _ _ _ hrest, hcut, operator?_stop hm]
  rfl

theorem expr?_end {e : Expr} (h : e.Uses .words) :
    expr? constant (cut (e.render.toList ++ [';'])) = some (e.reading constant, [.mark ";"]) := by
  have hcut : cut [';'] = .mark ";" :: [] := rfl
  exact expr?_render h (by simp) hcut rfl (by decide)

/-- A line is read as a statement that is not a loop. -/
structure IsLine (constant : String → Float) (element : String) (ts : List Token) (s : Stmt) : Prop where
  loop : loop? ts = none
  statement : statement? constant element ts = some s
  allocation : allocation? element ts = none

section

variable {element : String} (helement : IsElementType element) (depth : Nat)
include helement

theorem isLine_declare (n : Nat) {value : Expr} (h : value.Uses .words) :
    IsLine constant element
      (tokens (margin depth ++ element ++ " " ++ tempName n ++ " = " ++ value.render ++ ";"))
      (.declare n (value.reading constant)) := by
  have htokens : tokens (margin depth ++ element ++ " " ++ tempName n ++ " = " ++ value.render ++ ";") =
      .word element :: .word (tempName n) :: .mark "=" :: cut (value.render.toList ++ [';']) := by
    simp [tokens_eq, cut_name helement.isName, cut_name (isName_tempName n)]
  have hloop : "for" ≠ element := by rcases helement with rfl | rfl <;> decide
  rw [htokens]
  exact ⟨by simp [loop?, after?, hloop], by simp [statement?, after?, word?, expr?_end h, temp?_tempName],
    by simp [allocation?, after?]⟩

/-- A line that starts with an element. -/
theorem line_element (constant : String → Float) {dst : Element} (h : dst.Uses .words) {rest : List Char}
    (hends : Ends rest) {m : String} {ts : List Token} (hcut : cut rest = .mark m :: ts)
    (hm : arithOf? m = none) (hopen : m ≠ "[") :
    loop? (cut (dst.render.toList ++ rest)) = none ∧
      after? [.word element] (cut (dst.render.toList ++ rest)) = none ∧
      allocation? element (cut (dst.render.toList ++ rest)) = none ∧
      expr? constant (cut (dst.render.toList ++ rest)) = some (.element dst, .mark m :: ts) := by
  have hexpr : expr? constant (cut (dst.render.toList ++ rest)) = some (.element dst, .mark m :: ts) :=
    expr?_render (e := .element dst) h hends hcut hm hopen
  have hfirst : ∃ ts, cut (dst.render.toList ++ rest) = .word (arrayName dst.tensor) :: ts := by
    simp only [Element.render, String.toList_append, List.append_assoc]
    exact ⟨_, cut_name (isName_arrayName h.1) (by simp)⟩
  obtain ⟨ts', hfirst⟩ := hfirst
  have hloop : "for" ≠ arrayName dst.tensor := (arrayName_ne (by decide)).symm
  have hne := helement.ne_arrayName dst.tensor
  refine ⟨?_, ?_, ?_, hexpr⟩
  all_goals rw [hfirst]
  · simp [loop?, after?, hloop]
  · simp [after?, hne]
  · simp [allocation?, after?, hne]

theorem isLine_clear {dst : Element} (h : dst.Uses .words) :
    IsLine constant element (tokens (margin depth ++ dst.render ++ " = 0;")) (.clear dst) := by
  have htokens : tokens (margin depth ++ dst.render ++ " = 0;") =
      cut (dst.render.toList ++ [' ', '=', ' ', '0', ';']) := by
    simp [tokens_eq]
  have hcut : cut [' ', '=', ' ', '0', ';'] = .mark "=" :: [.number "0", .mark ";"] := by decide
  obtain ⟨hloop, hafter, halloc, hexpr⟩ := line_element helement constant h (by simp) hcut rfl
    (by decide)
  rw [htokens]
  exact ⟨hloop, by simp [statement?, hafter, hexpr], halloc⟩

theorem isLine_store {dst : Element} (h : dst.Uses .words) {value : Expr} (hvalue : value.Uses .words) :
    IsLine constant element (tokens (margin depth ++ dst.render ++ " = " ++ value.render ++ ";"))
      (.store dst (value.reading constant)) := by
  have htokens : tokens (margin depth ++ dst.render ++ " = " ++ value.render ++ ";") =
      cut (dst.render.toList ++ ' ' :: '=' :: ' ' :: (value.render.toList ++ [';'])) := by
    simp [tokens_eq]
  have hcut : cut (' ' :: '=' :: ' ' :: (value.render.toList ++ [';'])) =
      .mark "=" :: cut (value.render.toList ++ [';']) := by simp
  have hread : expr? constant (cut (value.render.toList ++ [';'])) =
      some (value.reading constant, [.mark ";"]) := expr?_end hvalue
  have hzero : cut (value.render.toList ++ [';']) ≠ [.number "0", .mark ";"] := fun h => by
    rw [h] at hread
    cases hread
  obtain ⟨hloop, hafter, halloc, hexpr⟩ := line_element helement constant h (by simp) hcut rfl
    (by decide)
  rw [htokens]
  exact ⟨hloop, by simp [statement?, hafter, hexpr, hzero, hread], halloc⟩

theorem isLine_accumulate {dst : Element} (h : dst.Uses .words) {x y : Expr} (hx : x.Uses .words)
    (hy : y.Uses .words) :
    IsLine constant element
      (tokens (margin depth ++ dst.render ++ " += " ++ x.render ++ " * " ++ y.render ++ ";"))
      (.accumulate dst (x.reading constant) (y.reading constant)) := by
  have htokens : tokens (margin depth ++ dst.render ++ " += " ++ x.render ++ " * " ++ y.render ++ ";") =
      cut (dst.render.toList ++ ' ' :: '+' :: '=' :: ' ' ::
        (x.render.toList ++ ' ' :: '*' :: ' ' :: (y.render.toList ++ [';']))) := by
    simp [tokens_eq]
  have hcut : cut (' ' :: '+' :: '=' :: ' ' ::
      (x.render.toList ++ ' ' :: '*' :: ' ' :: (y.render.toList ++ [';']))) =
      .mark "+=" :: cut (x.render.toList ++ ' ' :: '*' :: ' ' :: (y.render.toList ++ [';'])) := by simp
  have hstar : cut (' ' :: '*' :: ' ' :: (y.render.toList ++ [';'])) =
      .mark ArithOp.mul.sign :: cut (y.render.toList ++ [';']) := by simp [ArithOp.sign]
  have hend : Follows [';'] := .mark (by simp) (cut_marks []).2.2.2.2.2.2.2.1 (by decide)
  have hread : expr? constant (cut (x.render.toList ++ ' ' :: '*' :: ' ' :: (y.render.toList ++ [';']))) =
      some (.arith .mul (x.reading constant) (y.reading constant), [.mark ";"]) := by
    rw [expr?, Expr.reads hx _ _ _ (.mark (by simp) hstar (by decide)), hstar, operator?_sign,
      Expr.reads hy _ _ _ hend]
    exact operator?_stop rfl
  obtain ⟨hloop, hafter, halloc, hexpr⟩ := line_element helement constant h (by simp) hcut rfl
    (by decide)
  rw [htokens]
  exact ⟨hloop, by simp [statement?, hafter, hexpr, hread], halloc⟩

end

/-! ## Blocks -/

section

variable {element : String} {frames : List (String × Int × List Stmt)} {done : List Stmt}
  {ts : List Token} {rest : List (List Token)}

theorem IsLine.block? {s : Stmt} (h : IsLine constant element ts s) :
    block? constant element frames done (ts :: rest) = block? constant element frames (s :: done) rest := by
  simp only [C.block?, h.loop, h.statement]

theorem block?_open {index : String} {extent : Int} (h : loop? ts = some (index, extent)) :
    block? constant element frames done (ts :: rest) =
      block? constant element ((index, extent, done) :: frames) [] rest := by
  simp only [block?, h]

theorem block?_close (index : String) (extent : Int) (before : List Stmt) :
    block? constant element ((index, extent, before) :: frames) done ([.mark "\x7d"] :: rest) =
      block? constant element frames (.loop index extent done.reverse :: before) rest := by
  have hstatement : statement? constant element [.mark "\x7d"] = none := by
    simp [statement?, after?, expr?]
  simp only [block?, hstatement]
  rfl

theorem IsLine.ne_nil {s : Stmt} (h : IsLine constant element ts s) : ts ≠ [] := by
  rintro rfl
  have := h.statement
  simp [statement?, after?, expr?] at this

theorem ne_nil_of_loop? {r : String × Int} (h : loop? ts = some r) : ts ≠ [] := by
  rintro rfl
  cases h

theorem tokenLines_cons {line : String} (h : tokens line ≠ []) (lines : List String) :
    tokenLines (line :: lines) = tokens line :: tokenLines lines := by
  rw [tokenLines, List.map_cons, List.filter_cons, if_pos (by simpa using h)]
  rfl

theorem tokenLines_append (lines lines' : List String) :
    tokenLines (lines ++ lines') = tokenLines lines ++ tokenLines lines' := by
  simp [tokenLines]

theorem tokenLines_map {σ : Type} {xs : List σ} (text : σ → String) (h : ∀ x ∈ xs, tokens (text x) ≠ []) :
    tokenLines (xs.map text) = xs.map fun x => tokens (text x) := by
  induction xs with
  | nil => rfl
  | cons x xs ih =>
    rw [List.forall_mem_cons] at h
    rw [List.map_cons, tokenLines_cons h.1, ih h.2, List.map_cons]

theorem tokenLines_renderBody (f : Function) :
    tokenLines f.renderBody = tokenLines (Stmt.renderAll f.element 0 f.body) := by
  rw [Function.renderBody]
  split
  · rename_i hnil
    rw [hnil]
    rfl
  · rfl

theorem IsLine.block?_lines {line : String} {s : Stmt} (h : IsLine constant element (tokens line) s) :
    C.block? constant element frames done (tokenLines [line] ++ rest) =
      C.block? constant element frames (s :: done) rest := by
  rw [tokenLines_cons h.ne_nil]
  exact h.block?

end

mutual
/-- The lines of a statement are read as the statement. A loop is put together when its last line has
been read. -/
theorem Stmt.block?_render {element : String} (helement : IsElementType element) {depth : Nat}
    {frames : List (String × Int × List Stmt)} {done : List Stmt} {rest : List (List Token)} :
    (s : Stmt) → s.Uses .words →
    block? constant element frames done (tokenLines (s.render element depth) ++ rest) =
      block? constant element frames (s.reading constant :: done) rest
  | .loop index extent body, h => by
    have hopen := loop?_line h.1 depth extent
    have hclose : tokens (margin depth ++ "\x7d") = [.mark "\x7d"] := by simp [tokens_eq]
    have hlast : tokenLines [margin depth ++ "\x7d"] = [[.mark "\x7d"]] := by
      rw [tokenLines_cons (by rw [hclose]; simp), hclose]
      rfl
    rw [Stmt.render, List.cons_append, tokenLines_cons (ne_nil_of_loop? hopen), tokenLines_append, hlast,
      List.cons_append, List.append_assoc, block?_open hopen, Stmt.block?_renderAll helement body h.2, List.append_nil]
    refine (block?_close _ _ _).trans ?_
    rw [List.reverse_reverse, Stmt.reading]
    rfl
  | .declare n value, h => by
    rw [Stmt.render]
    exact (isLine_declare helement depth n h).block?_lines
  | .store dst value, h => by
    rw [Stmt.render]
    exact (isLine_store helement depth h.1 h.2).block?_lines
  | .clear dst, h => by
    rw [Stmt.render]
    exact (isLine_clear helement depth h).block?_lines
  | .accumulate dst x y, h => by
    rw [Stmt.render]
    exact (isLine_accumulate helement depth h.1 h.2.1 h.2.2).block?_lines

theorem Stmt.block?_renderAll {element : String} (helement : IsElementType element) {depth : Nat}
    {frames : List (String × Int × List Stmt)} {done : List Stmt} {rest : List (List Token)} :
    (ss : List Stmt) → Stmt.UsesAll .words ss →
    block? constant element frames done (tokenLines (Stmt.renderAll element depth ss) ++ rest) =
      block? constant element frames ((Stmt.readingAll constant ss).reverse ++ done) rest
  | [], _ => rfl
  | s :: ss, h => by
    rw [Stmt.renderAll, tokenLines_append, List.append_assoc, Stmt.block?_render helement s h.1,
      Stmt.block?_renderAll helement ss h.2, Stmt.readingAll, List.reverse_cons, List.append_assoc]
    rfl
end

/-- Lines behind a block end it. -/
theorem block?_stop {element : String} {done : List Stmt} {ts : List Token} {rest : List (List Token)}
    (hloop : loop? ts = none) (hstatement : statement? constant element ts = none) :
    block? constant element [] done (ts :: rest) = some (done.reverse, ts :: rest) := by
  simp only [block?, hloop, hstatement]

/-- A line that opens a loop allocates no buffer. -/
theorem allocation?_of_loop? {element : String} (helement : IsElementType element) {ts : List Token}
    {r : String × Int} (h : loop? ts = some r) : allocation? element ts = none := by
  cases ts with
  | nil => cases h
  | cons t ts =>
    have hfor : "for" ≠ element := by rcases helement with rfl | rfl <;> decide
    have hne : .word element ≠ t := by
      rintro rfl
      simp [loop?, after?, hfor] at h
    simp [allocation?, after?, hne]

/-- No line at the start of a block allocates a buffer. -/
theorem allocation?_block {element : String} (helement : IsElementType element) {depth : Nat}
    {ss : List Stmt} (h : Stmt.UsesAll .words ss) :
    ∀ ts ∈ (tokenLines (Stmt.renderAll element depth ss)).head?, allocation? element ts = none := by
  have hline : ∀ {line : String} {s : Stmt} {lines : List String},
      IsLine (fun _ => 0) element (tokens line) s →
      ∀ ts ∈ (tokenLines (line :: lines)).head?, allocation? element ts = none := by
    intro line s lines hline ts hts
    rw [tokenLines_cons hline.ne_nil, List.head?_cons, Option.mem_some_iff] at hts
    exact hts ▸ hline.allocation
  cases ss with
  | nil => exact fun _ hts => by cases hts
  | cons s ss =>
    obtain ⟨hs, -⟩ := h
    rw [Stmt.renderAll]
    cases s with
    | loop index extent body =>
      have hopen := allocation?_of_loop? helement (loop?_line hs.1 depth extent)
      intro ts hts
      rw [Stmt.render, List.cons_append, List.cons_append, tokenLines_cons (ne_nil_of_loop? (loop?_line hs.1 _ _)),
        List.head?_cons, Option.mem_some_iff] at hts
      exact hts ▸ hopen
    | declare n value => exact hline (isLine_declare helement depth n hs)
    | store dst value => exact hline (isLine_store helement depth hs.1 hs.2)
    | clear dst => exact hline (isLine_clear helement depth hs)
    | accumulate dst x y => exact hline (isLine_accumulate helement depth hs.1 hs.2.1 hs.2.2)

end LoopNest.C
