import LoopNest.Proofs.Code.Kernel
import LoopNest.Proofs.Code.Reading

/-!
# Files of kernels

The text of a kernel is read back as the kernel that was written (`Function.read?_render`): the function
with its parameters, the buffers that it allocates and frees, its statements, and the entry point that
passes the arguments on. Run as it is read, it does to the arguments what its statements do to them
(`Function.run_reading`).
-/

namespace LoopNest.C

open Compiler (Token)

/-- The names that functions can have. -/
def IsFunctionName (name : String) : Prop := IsName name ∧ name ∉ reserved

/-- What a kernel function is read as. -/
def Function.reading (constant : String → Float) (f : Function) : Source where
  name := f.name
  params := f.params
  buffers := f.buffers
  body := Stmt.readingAll constant f.body
  freed := f.buffers.map (·.1)
  entry := f.entry
  passed := List.range f.params.length

variable {constant : String → Float}

/-! ## Lines -/

theorem mapM_map_eq_some {σ τ : Type _} {f : τ → Option σ} {g : σ → τ} {l : List σ}
    (h : ∀ x ∈ l, f (g x) = some x) : (l.map g).mapM f = some l := by
  induction l with
  | nil => rfl
  | cons x l ih =>
    rw [List.forall_mem_cons] at h
    rw [List.map_cons, List.mapM_cons, h.1, ih h.2]
    rfl

theorem leading_append {σ τ : Type} {read? : List Token → Option τ} {g : σ → List Token} {r : σ → τ}
    {xs : List σ} (h : ∀ x ∈ xs, read? (g x) = some (r x)) (rest : List (List Token))
    (hstop : ∀ ts ∈ rest.head?, read? ts = none) :
    leading read? (xs.map g ++ rest) = (xs.map r, rest) := by
  induction xs with
  | nil =>
    cases rest with
    | nil => rfl
    | cons ts rest => rw [List.map_nil, List.nil_append, leading, hstop ts rfl, List.map_nil]
  | cons x xs ih =>
    rw [List.forall_mem_cons] at h
    rw [List.map_cons, List.cons_append, leading, h.1, ih h.2, List.map_cons]

/-! ## Lists with commas -/

/-- The pieces with commas between them. -/
def commas : List (List Token) → List Token
  | [] => []
  | [p] => p
  | p :: q :: ps => p ++ .mark "," :: commas (q :: ps)

theorem cut_commas {σ : Type} {text : σ → String} {g : σ → List Token} {xs : List σ}
    (h : ∀ x ∈ xs, ∀ rest, Ends rest → cut ((text x).toList ++ rest) = g x ++ cut rest) {rest : List Char}
    (hends : Ends rest) :
    cut ((", ".intercalate (xs.map text)).toList ++ rest) = commas (xs.map g) ++ cut rest := by
  induction xs with
  | nil => rfl
  | cons x xs ih =>
    rw [List.forall_mem_cons] at h
    cases xs with
    | nil => exact String.intercalate_singleton ▸ h.1 rest hends
    | cons y xs =>
      have hcomma : cut (", ".toList ++ ((", ".intercalate ((y :: xs).map text)).toList ++ rest)) =
          .mark "," :: cut ((", ".intercalate ((y :: xs).map text)).toList ++ rest) := by simp
      rw [List.map_cons, List.map_cons, String.intercalate_cons_cons, ← List.map_cons]
      simp only [String.toList_append, List.append_assoc]
      rw [h.1 _ (by simp), hcomma, ih h.2]
      simp [commas]

theorem piecesFrom_append {p : List Token} (hp : .mark "," ∉ p) (piece ts : List Token) :
    piecesFrom piece (p ++ ts) = piecesFrom (piece ++ p) ts := by
  induction p generalizing piece with
  | nil => rw [List.append_nil]; rfl
  | cons t p ih =>
    rw [List.mem_cons, not_or] at hp
    have hstep : piecesFrom piece (t :: (p ++ ts)) = piecesFrom (piece ++ [t]) (p ++ ts) := by
      rw [piecesFrom.eq_def]
      split
      · cases ‹_ :: _ = []›
      · rename_i heq
        cases heq
        exact absurd rfl hp.1
      · rename_i heq
        cases heq
        rfl
    rw [List.cons_append, hstep, ih hp.2, List.append_assoc, List.singleton_append]

theorem piecesFrom_commas {p : List Token} {ps : List (List Token)} (h : ∀ q ∈ p :: ps, .mark "," ∉ q)
    (piece : List Token) : piecesFrom piece (commas (p :: ps)) = (piece ++ p) :: ps := by
  induction ps generalizing p piece with
  | nil =>
    rw [commas, ← List.append_nil p, piecesFrom_append (h p (.head _)), List.append_nil]
    rfl
  | cons q ps ih =>
    rw [List.forall_mem_cons] at h
    rw [commas, piecesFrom_append h.1, piecesFrom, ih h.2]
    rfl

theorem items_commas {pieces : List (List Token)} (h : ∀ p ∈ pieces, p ≠ [] ∧ .mark "," ∉ p) :
    items (commas pieces) = pieces := by
  cases pieces with
  | nil => rfl
  | cons p ps =>
    have hne : (commas (p :: ps)).isEmpty = false := by
      have hp := (h p (.head _)).1
      cases ps <;> simp [commas, hp]
    rw [items, hne]
    exact piecesFrom_commas (fun q hq => (h q hq).2) []

/-! ## The function and its entry point -/

theorem cut_param {tensor : String} (h : IsWord tensor) {rest : List Char} (hends : Ends rest) :
    cut ('*' :: ((arrayName tensor).toList ++ rest)) = .mark "*" :: .word (arrayName tensor) :: cut rest := by
  rw [← cut_name (isName_arrayName h) hends]
  have hname : (arrayName tensor).toList = 't' :: '_' :: tensor.toList := by simp [arrayName]
  rw [hname]
  exact cut_star (by decide) _

/-- The tokens of a parameter. -/
def paramTokens (element tensor : String) : List Token :=
  [.word element, .mark "*", .word (arrayName tensor)]

/-- The tokens of an argument that is passed on. -/
def argTokens (element : String) (i : Nat) : List Token :=
  [.mark "(", .word element, .mark "*", .mark ")", .word "args", .mark "[", .number i.repr, .mark "]"]

/-- A function whose text can be read. -/
structure Function.Readable (f : Function) : Prop where
  element : IsElementType f.element
  name : IsFunctionName f.name
  params : ∀ t ∈ f.params, IsWord t
  buffers : ∀ b ∈ f.buffers, IsWord b.1
  body : Stmt.UsesAll .words f.body

namespace Function.Readable

variable {f : Function} (h : f.Readable)
include h

theorem head?_line : head? f.element (tokens ("void " ++ f.name ++ "(" ++
    ", ".intercalate (f.params.map f.renderParam) ++ ") \x7b")) = some (f.name, f.params) := by
  have hparam : ∀ t ∈ f.params, ∀ rest, Ends rest →
      cut ((f.renderParam t).toList ++ rest) = paramTokens f.element t ++ cut rest := by
    intro t ht rest hends
    simp only [Function.renderParam, String.toList_append, List.append_assoc]
    rw [cut_name h.element.isName (by simp)]
    simp [cut_param (h.params t ht) hends, paramTokens]
  have htokens : tokens ("void " ++ f.name ++ "(" ++ ", ".intercalate (f.params.map f.renderParam) ++ ") \x7b") =
      .word "void" :: .word f.name :: .mark "(" ::
        (commas (f.params.map (paramTokens f.element)) ++ [.mark ")", .mark "\x7b"]) := by
    simp [tokens_eq, cut_name h.name.1, cut_commas hparam, -String.toList_intercalate]
  have hitems : items (commas (f.params.map (paramTokens f.element))) = f.params.map (paramTokens f.element) :=
    items_commas fun p hp => by
      obtain ⟨t, -, rfl⟩ := List.mem_map.mp hp
      simp [paramTokens]
  have hread : (f.params.map (paramTokens f.element)).mapM (param? f.element) = some f.params :=
    mapM_map_eq_some fun t _ => by simp [param?, paramTokens, after?, word?, tensor?_arrayName]
  have hreserved := h.name.2
  rw [htokens]
  simp [head?, after?, word?, before?_append, hreserved, hitems, hread]

theorem allocation?_line {b : String × Int} (hb : b ∈ f.buffers) :
    allocation? f.element (tokens (f.renderAlloc b)) = some b := by
  obtain ⟨tensor, size⟩ := b
  have htokens : tokens (f.renderAlloc (tensor, size)) = .word f.element :: .mark "*" ::
      .word (arrayName tensor) :: .mark "=" :: .mark "(" :: .word f.element :: .mark "*" :: .mark ")" ::
      .word "malloc" :: .mark "(" :: (intTokens size ++ [.mark "*", .word "sizeof", .mark "(",
        .word f.element, .mark ")", .mark ")", .mark ";"]) := by
    simp [tokens_eq, Function.renderAlloc, Function.renderParam, cut_name h.element.isName,
      cut_param (h.buffers _ hb)]
  rw [htokens]
  simp [allocation?, after?, word?, integer?_tokens, tensor?_arrayName]

theorem tokens_free {b : String × Int} (hb : b ∈ f.buffers) : tokens ("  free(" ++ arrayName b.1 ++ ");") =
    [.word "free", .mark "(", .word (arrayName b.1), .mark ")", .mark ";"] := by
  simp [tokens_eq, cut_name (isName_arrayName (h.buffers b hb))]

theorem release?_line {b : String × Int} (hb : b ∈ f.buffers) :
    release? (tokens ("  free(" ++ arrayName b.1 ++ ");")) = some b.1 := by
  simp [h.tokens_free hb, release?, after?, word?, tensor?_arrayName]

theorem entry : IsFunctionName f.entry := by
  refine ⟨IsName.append h.name.1 (by decide), fun hmem => ?_⟩
  have hsuffix : "_entry".toList <:+ f.entry.toList := by simp [Function.entry]
  have hspare := (reserved_spares _ hmem).2.2
  rw [List.isSuffixOf_iff_suffix.mpr hsuffix] at hspare
  cases hspare

theorem entry?_line : entry? (tokens ("void " ++ f.entry ++ "(void **args) \x7b")) = some f.entry := by
  have hreserved := h.entry.2
  simp [tokens_eq, cut_name h.entry.1, entry?, after?, word?, hreserved]

theorem call?_line : call? f.element f.name (tokens ("  " ++ f.name ++ "("
    ++ ", ".intercalate ((List.range f.params.length).map f.renderArg) ++ ");")) =
      some (List.range f.params.length) := by
  have harg : ∀ i ∈ List.range f.params.length, ∀ rest, Ends rest →
      cut ((f.renderArg i).toList ++ rest) = argTokens f.element i ++ cut rest := by
    intro i _ rest _
    simp [Function.renderArg, cut_name h.element.isName, argTokens]
  have htokens : tokens ("  " ++ f.name ++ "("
      ++ ", ".intercalate ((List.range f.params.length).map f.renderArg) ++ ");") =
      .word f.name :: .mark "(" ::
        (commas ((List.range f.params.length).map (argTokens f.element)) ++ [.mark ")", .mark ";"]) := by
    simp [tokens_eq, cut_name h.name.1, cut_commas harg, -String.toList_intercalate]
  have hitems : items (commas ((List.range f.params.length).map (argTokens f.element))) =
      (List.range f.params.length).map (argTokens f.element) :=
    items_commas fun p hp => by
      obtain ⟨i, -, rfl⟩ := List.mem_map.mp hp
      simp [argTokens]
  have hread : ((List.range f.params.length).map (argTokens f.element)).mapM (arg? f.element) =
      some (List.range f.params.length) :=
    mapM_map_eq_some fun i _ => by simp [arg?, argTokens, after?, decimal?_repr]
  rw [htokens]
  simp [call?, after?, before?_append, hitems, hread]

end Function.Readable

/-! ## Line feeds -/

theorem newline_int (k : Int) : '\n' ∉ k.repr.toList := by
  have hnat : ∀ n : Nat, '\n' ∉ n.repr.toList := fun n => (isNumeral_natural n).newline
  cases k with
  | ofNat n => exact hnat n
  | negSucc n =>
    have htext : (Int.negSucc n).repr = "-" ++ (n + 1).repr := rfl
    rw [htext, String.toList_append, List.mem_append, not_or]
    exact ⟨by decide, hnat (n + 1)⟩

theorem newline_index {i : Index} (h : i.Usual) : '\n' ∉ i.render.toList := by
  cases i with
  | loop name => exact (IsLoop.isName h).isWord.newline
  | fixed k => exact newline_int k

theorem newline_offset {o : Offset} (h : o.Usual) : '\n' ∉ o.render.toList := by
  induction o with
  | index i => exact newline_index (h i (.head _))
  | step i extent inner ih =>
    have hi := newline_index (h i (.head _))
    have hinner := ih fun j hj => h j (List.mem_cons_of_mem _ hj)
    have hextent := newline_int extent
    simp [Offset.render, hi, hinner, hextent]

theorem newline_element {e : Element} (h : e.Uses .words) : '\n' ∉ e.render.toList := by
  have hname := (isName_arrayName h.1).isWord.newline
  have hoffset := newline_offset h.2
  simp [Element.render, hname, hoffset]

theorem newline_literal (v : Float) : '\n' ∉ (renderLiteral v).toList := by
  rw [renderLiteral]
  cases hnan : v.isNaN with
  | true =>
    rw [if_pos rfl]
    decide
  | false =>
    cases hinf : v.isInf with
    | true =>
      simp only [Bool.false_eq_true, if_false, if_true]
      split <;> decide
    | false =>
      obtain ⟨w, htext, hw, -⟩ := literalDigits_spec hnan hinf
      have hdigits : '\n' ∉ (literalDigits v).toList := by
        rcases htext with htext | htext <;> simp [htext, hw.newline]
      simp only [Bool.false_eq_true, if_false]
      split
      · simp [hdigits]
      · exact hdigits

theorem Expr.newline {e : Expr} (h : e.Uses .words) : '\n' ∉ e.render.toList := by
  induction e with
  | literal v => exact newline_literal v
  | element e => exact newline_element h
  | temp n => exact (isName_tempName n).isWord.newline
  | arith op x y ihx ihy =>
    have hsign : '\n' ∉ op.sign.toList := by cases op <;> decide
    simp [Expr.render, ihx h.1, ihy h.2, hsign]

theorem newline_intercalate {texts : List String} (h : ∀ t ∈ texts, '\n' ∉ t.toList) :
    '\n' ∉ (", ".intercalate texts).toList := by
  induction texts with
  | nil => decide
  | cons t texts ih =>
    rw [List.forall_mem_cons] at h
    cases texts with
    | nil => exact String.intercalate_singleton ▸ h.1
    | cons u texts =>
      rw [String.intercalate_cons_cons, String.toList_append, String.toList_append]
      simp only [List.mem_append, not_or]
      exact ⟨⟨h.1, by decide⟩, ih h.2⟩

theorem newline_margin (depth : Nat) : '\n' ∉ (margin depth).toList := by
  simp [toList_margin]

mutual
theorem Stmt.newline {element : String} (helement : IsElementType element) {depth : Nat} :
    (s : Stmt) → s.Uses .words → ∀ line ∈ s.render element depth, '\n' ∉ line.toList
  | .loop index extent body, h, line, hline => by
    have hindex := (IsLoop.isName h.1).isWord.newline
    have hextent := newline_int extent
    rw [Stmt.render, List.cons_append, List.mem_cons, List.mem_append, List.mem_singleton] at hline
    rcases hline with rfl | hline | rfl
    · simp [newline_margin, hindex, hextent]
    · exact Stmt.newlineAll helement body h.2 line hline
    · simp [newline_margin]
  | .declare n value, h, line, hline => by
    have helement' := helement.isName.isWord.newline
    have htemp := (isName_tempName n).isWord.newline
    rw [List.mem_singleton.mp hline]
    simp [newline_margin, helement', htemp, Expr.newline h]
  | .store dst value, h, line, hline => by
    rw [List.mem_singleton.mp hline]
    simp [newline_margin, newline_element h.1, Expr.newline h.2]
  | .clear dst, h, line, hline => by
    rw [List.mem_singleton.mp hline]
    simp [newline_margin, newline_element h]
  | .accumulate dst x y, h, line, hline => by
    rw [List.mem_singleton.mp hline]
    simp [newline_margin, newline_element h.1, Expr.newline h.2.1, Expr.newline h.2.2]

theorem Stmt.newlineAll {element : String} (helement : IsElementType element) {depth : Nat} :
    (ss : List Stmt) → Stmt.UsesAll .words ss →
    ∀ line ∈ Stmt.renderAll element depth ss, '\n' ∉ line.toList
  | [], _, _, hline => absurd hline List.not_mem_nil
  | s :: ss, h, line, hline =>
    (List.mem_append.mp hline).elim (Stmt.newline helement s h.1 line) (Stmt.newlineAll helement ss h.2 line)
end

/-! ## The text -/

theorem lines_unlines {ls : List String} (h : ∀ l ∈ ls, '\n' ∉ l.toList) :
    Text.lines (Text.unlines ls) = ls := by
  have hpiece : ∀ (cs line rest : List Char), '\n' ∉ cs →
      Text.piecesFrom line (cs ++ '\n' :: rest) = (cs.reverse ++ line).reverse :: Text.piecesFrom [] rest := by
    intro cs
    induction cs with
    | nil => exact fun line rest _ => rfl
    | cons c cs ih =>
      intro line rest hcs
      rw [List.mem_cons, not_or] at hcs
      have hstep : Text.piecesFrom line (c :: (cs ++ '\n' :: rest)) =
          Text.piecesFrom (c :: line) (cs ++ '\n' :: rest) := by
        rw [Text.piecesFrom]
        exact Ne.symm hcs.1
      rw [List.cons_append, hstep, ih _ _ hcs.2, List.reverse_cons, List.append_assoc]
      rfl
  have hpieces : Text.pieces (Text.unlines ls) = ls ++ [""] := by
    rw [Text.pieces, Text.unlines, String.toList_join]
    induction ls with
    | nil => rfl
    | cons l ls ih =>
      rw [List.forall_mem_cons] at h
      rw [List.map_cons, List.flatMap_cons, String.toList_append, List.append_assoc]
      refine (congrArg _ (hpiece l.toList [] _ h.1)).trans ?_
      rw [List.map_cons, List.append_nil, List.reverse_reverse, String.ofList_toList]
      exact congrArg (l :: ·) (ih h.2)
  rw [Text.lines, hpieces, List.getLast?_append]
  simp

namespace Function.Readable

variable {f : Function} (h : f.Readable)
include h

theorem newline_param {t : String} (ht : IsWord t) : '\n' ∉ (f.renderParam t).toList := by
  have helement := h.element.isName.isWord.newline
  have hname := (isName_arrayName ht).isWord.newline
  simp [Function.renderParam, helement, hname]

theorem newline_lines : ∀ line ∈ f.lines, '\n' ∉ line.toList := by
  have hname := h.name.1.isWord.newline
  have hentry := h.entry.1.isWord.newline
  have helement := h.element.isName.isWord.newline
  have hbody : ∀ line ∈ f.renderBody, '\n' ∉ line.toList := by
    intro line hline
    rw [Function.renderBody] at hline
    split at hline
    · rw [List.mem_singleton.mp hline]
      decide
    · exact Stmt.newlineAll h.element f.body h.body line hline
  have hparams : '\n' ∉ (", ".intercalate (f.params.map f.renderParam)).toList :=
    newline_intercalate (List.forall_mem_map.mpr fun t ht => h.newline_param (h.params t ht))
  have hargs : '\n' ∉ (", ".intercalate ((List.range f.params.length).map f.renderArg)).toList :=
    newline_intercalate (List.forall_mem_map.mpr fun i _ => by
      have hi : '\n' ∉ (toString i).toList := newline_int i
      simp [Function.renderArg, helement, hi, -Nat.toString_eq_repr])
  have hallocs : ∀ b ∈ f.buffers, '\n' ∉ (f.renderAlloc b).toList := fun b hb => by
    have hparam := h.newline_param (h.buffers b hb)
    have hsize := newline_int b.2
    simp [Function.renderAlloc, helement, hparam, hsize]
  have hfrees : ∀ b ∈ f.buffers, '\n' ∉ ("  free(" ++ arrayName b.1 ++ ");").toList := fun b hb => by
    have hbuffer := (isName_arrayName (h.buffers b hb)).isWord.newline
    simp [hbuffer]
  have hlayout : '\n' ∉ f.layout.name.toList := by cases f.layout <;> decide
  simp only [Function.lines, List.forall_mem_append, List.forall_mem_cons, List.forall_mem_map,
    List.not_mem_nil, false_imp_iff, implies_true, and_true]
  refine ⟨⟨⟨⟨⟨?_, by decide, by decide, ?_⟩, hallocs⟩, hbody⟩, hfrees⟩, by decide, by decide, ?_, ?_,
    by decide⟩
  · simp [hlayout]
  · simp only [String.toList_append, List.mem_append, not_or]
    exact ⟨⟨⟨⟨by decide, hname⟩, by decide⟩, hparams⟩, by decide⟩
  · simp [hentry]
  · simp only [String.toList_append, List.mem_append, not_or]
    exact ⟨⟨⟨⟨by decide, hname⟩, by decide⟩, hargs⟩, by decide⟩

/-- The first line behind the body. -/
theorem ending (constant : String → Float) (rest : List (List Token)) : ∃ ts rest',
    (f.buffers.map fun b => tokens ("  free(" ++ arrayName b.1 ++ ");")) ++ [.mark "\x7d"] :: rest = ts :: rest' ∧
      loop? ts = none ∧ statement? constant f.element ts = none ∧ allocation? f.element ts = none := by
  have hfree : f.element ≠ "free" := by
    rcases h.element with heq | heq <;> rw [heq] <;> decide
  have htemp : temp? "free" = none := by decide
  cases hbuffers : f.buffers with
  | nil =>
    refine ⟨_, _, rfl, by simp [loop?, after?], ?_, by simp [allocation?, after?]⟩
    simp [statement?, after?, expr?]
  | cons b bs =>
    rw [List.map_cons, h.tokens_free (hbuffers ▸ .head _)]
    refine ⟨_, _, rfl, by simp [loop?, after?], ?_, by simp [allocation?, after?, hfree]⟩
    simp [statement?, after?, hfree, expr?, operand?_word, htemp]

/-- The lines of a file by their tokens. -/
theorem tokenLines_lines : ∃ head entry call, head? f.element head = some (f.name, f.params) ∧
    entry? entry = some f.entry ∧ call? f.element f.name call = some (List.range f.params.length) ∧
    tokenLines (f.lines.drop 2) = head :: ((f.buffers.map fun b => tokens (f.renderAlloc b)) ++
      (tokenLines (Stmt.renderAll f.element 0 f.body) ++
        ((f.buffers.map fun b => tokens ("  free(" ++ arrayName b.1 ++ ");")) ++
          [[.mark "\x7d"], entry, call, [.mark "\x7d"]]))) := by
  have hhead := h.head?_line
  have hentry := h.entry?_line
  have hcall := h.call?_line
  have hclose : tokens "\x7d" = [.mark "\x7d"] := by decide
  have hblank : ∀ lines, tokenLines ("" :: lines) = tokenLines lines := fun _ => rfl
  refine ⟨_, _, _, hhead, hentry, hcall, ?_⟩
  have hnil : tokens ("void " ++ f.name ++ "(" ++ ", ".intercalate (f.params.map f.renderParam) ++ ") \x7b") ≠ [] ∧
      tokens ("void " ++ f.entry ++ "(void **args) \x7b") ≠ [] ∧ tokens ("  " ++ f.name ++ "("
        ++ ", ".intercalate ((List.range f.params.length).map f.renderArg) ++ ");") ≠ [] := by
    refine ⟨fun hnil => ?_, fun hnil => ?_, fun hnil => ?_⟩
    · rw [hnil] at hhead
      cases hhead
    · rw [hnil] at hentry
      cases hentry
    · rw [hnil] at hcall
      cases hcall
  have hallocs := tokenLines_map f.renderAlloc fun b (hb : b ∈ f.buffers) hnil => by
    have := h.allocation?_line hb
    rw [hnil] at this
    cases this
  have hfrees := tokenLines_map (fun b => "  free(" ++ arrayName b.1 ++ ");")
    fun b (hb : b ∈ f.buffers) => by simp [h.tokens_free hb]
  simp only [Function.lines, List.cons_append, List.nil_append, List.append_assoc, List.drop_succ_cons,
    List.drop_zero]
  rw [hblank, tokenLines_cons hnil.1, tokenLines_append, tokenLines_append, tokenLines_append,
    tokenLines_renderBody, hallocs, hfrees, tokenLines_cons (by rw [hclose]; simp), hblank,
    tokenLines_cons hnil.2.1, tokenLines_cons hnil.2.2, tokenLines_cons (by rw [hclose]; simp), hclose]
  rfl

theorem ofLines?_render : Source.ofLines? constant f.element (tokenLines (f.lines.drop 2)) =
    some (f.reading constant) := by
  obtain ⟨head, entry, call, hhead, hentry, hcall, hlines⟩ := h.tokenLines_lines
  obtain ⟨ts, rest, hend, hloop, hstatement, halloc⟩ :=
    h.ending constant [entry, call, [.mark "\x7d"]]
  have hallocs := leading_append (g := fun b => tokens (f.renderAlloc b)) (r := id)
    (fun b hb => h.allocation?_line hb)
    (tokenLines (Stmt.renderAll f.element 0 f.body) ++ ts :: rest) fun ts' hts' => by
      rw [List.head?_append, Option.mem_def, Option.or_eq_some_iff] at hts'
      rcases hts' with hts' | ⟨-, hts'⟩
      · exact allocation?_block h.element h.body ts' hts'
      · rw [← Option.some.inj hts']
        exact halloc
  have hbody : block? constant f.element [] []
      (tokenLines (Stmt.renderAll f.element 0 f.body) ++ ts :: rest) =
      some (Stmt.readingAll constant f.body, ts :: rest) := by
    rw [Stmt.block?_renderAll h.element f.body h.body, block?_stop hloop hstatement, List.append_nil,
      List.reverse_reverse]
  have hfrees := leading_append (fun b hb => h.release?_line hb)
    [[.mark "\x7d"], entry, call, [.mark "\x7d"]] fun ts' hts' => by
      cases hts'
      simp [release?, after?]
  rw [hend] at hfrees hlines
  rw [hlines, Source.ofLines?, hhead]
  simp only [Option.bind_eq_bind, Option.bind_some, hallocs, hbody, hfrees, hentry, hcall, List.map_id]
  rfl

end Function.Readable

/-- The text of a kernel is read as the kernel. -/
theorem Function.read?_render {f : Function} (h : f.Readable) :
    Source.read? constant f.element f.render = some (f.reading constant) := by
  have hcomment : isComment ("/* Generated by tensorc (" ++ f.layout.name ++ "-major layout). */") = true := by
    cases f.layout <;> decide
  have hlines : Source.ofLines? constant f.element (tokenLines (f.lines.drop 2)) = some (f.reading constant) :=
    h.ofLines?_render
  rw [Function.render, Source.read?, lines_unlines h.newline_lines]
  simp only [Function.lines, List.cons_append, List.nil_append, hcomment, Bool.true_and, decide_true, if_true]
  exact hlines

section

variable {α : Type} [Scalar α] {V : Vocabulary}

/-- A kernel runs as its text is read, if each of its arrays has a name of its own. -/
theorem Function.run_reading {f : Function} (hV : ∀ v, V.literal v → FaithfulAt α constant v)
    (hbody : Stmt.UsesAll V f.body) (hnodup : (f.params ++ f.buffers.map (·.1)).Nodup) (round : α → α)
    (contents : String → Nat → α) {args : List (Array α)} (hargs : args.length = f.params.length) :
    (f.reading constant).run round contents args = f.run round contents args := by
  have hbuffers : (f.buffers.map (·.1)).Nodup := (List.nodup_append.mp hnodup).2.1
  rw [Source.run, Function.run, ← Stmt.runAll_reading hV round f.body hbody]
  exact if_pos ⟨hnodup, hbuffers, fun _ hb => hb, hargs⟩

end

/-! ## Emitted kernels -/

theorem isElementType_of_cType? {d : ElementType} {element : String} (h : d.cType? = some element) :
    IsElementType element := by
  cases d with
  | float32 => exact .inl (Option.some.inj h).symm
  | float64 => exact .inr (Option.some.inj h).symm
  | _ => cases h

/-- The name that a kernel has by default. -/
theorem isFunctionName_default {name : String} (h : IsWord name) : IsFunctionName ("tensorc_" ++ name) := by
  refine ⟨IsName.append (by decide) h, fun hmem => ?_⟩
  have hstart : "tensorc_".toList <+: ("tensorc_" ++ name).toList := by simp
  have hspare := (reserved_spares _ hmem).2.1
  rw [List.isPrefixOf_iff_prefix.mpr hstart] at hspare
  cases hspare

/-- The numbers of a text have the values of the constants in the assignments of a program. -/
def Faithful (α : Type) [Scalar α] (constant : String → Float) (p : Program) : Prop :=
  ∀ a ∈ p.assignments, ∀ n ∈ (p.tree a.expr).labels, n.kind = .constant → FaithfulAt α constant n.value

/-- The names of the tensors can stand in a text. -/
def Spelled (p : Program) : Prop := ∀ e ∈ p.symbols.table.entries, IsWord e.1 ∧ IsWord e.2.name

instance (p : Program) : Decidable (Spelled p) :=
  inferInstanceAs (Decidable (∀ e ∈ p.symbols.table.entries, _))

theorem Spelled.of_find {p : Program} (h : p.Tidy) (hwords : ∀ name s, p.find name = some s → IsWord name) :
    Spelled p := by
  intro e he
  have hfind : p.find e.1 = some e.2 := (OrderedMap.get?_eq_some_iff h.nodup).mpr he
  exact ⟨hwords _ _ hfind, h.name_eq hfind ▸ hwords _ _ hfind⟩

theorem Spelled.find {p : Program} (h : Spelled p) {name : String} {s : Symbol} (hs : p.find name = some s) :
    IsWord name := by
  obtain ⟨e, he, -⟩ := Option.map_eq_some_iff.mp hs
  have hname : e.1 = name := by simpa using List.find?_some he
  exact hname ▸ (h e (List.mem_of_find?_eq_some he)).1

theorem Spelled.symbol {p : Program} (h : Spelled p) {s : Symbol} (hs : s ∈ p.symbols.all) : IsWord s.name := by
  obtain ⟨e, he, rfl⟩ := List.mem_map.mp hs
  exact (h e he).2

namespace Emits

variable {p : Program} {opts : EmitOptions} {code : Code} {f : Function} (h : Emits p opts code f)
include h

theorem isFunctionName (hp : IsWord p.name) (hopts : opts.funcName = "" ∨ IsFunctionName opts.funcName) :
    IsFunctionName f.name := by
  rw [h.name]
  cases hempty : opts.funcName.isEmpty with
  | true => exact isFunctionName_default hp
  | false =>
    refine hopts.resolve_left fun hnil => ?_
    rw [hnil] at hempty
    cases hempty

variable {N : NodeClass} {find : Symbols} (hplaces : ∀ a ∈ p.assignments, ∃ c, p.Places a c ∧ c.Fits N find)
include hplaces

/-- The code is made of declared tensors and of constants. -/
theorem usesAll {V : Vocabulary} (htensor : ∀ name s, find name = some s → V.tensor name)
    (hliteral : ∀ a ∈ p.assignments, ∀ n ∈ (p.tree a.expr).labels, n.kind = .constant → V.literal n.value) :
    Stmt.UsesAll V f.body := by
  obtain ⟨w, hbody⟩ := h.body
  refine Emit.uses_of_program p (fun a ha => ?_) hbody
  obtain ⟨c, hc, hfits⟩ := hplaces a ha
  exact Emit.within hc hfits htensor (hliteral a ha)

/-- The text of a kernel is read as its function if names can stand in it. -/
theorem read?_source (hfind : ∀ name s, find name = some s → p.find name = some s) (hwords : Spelled p)
    (hname : IsFunctionName f.name) (constant : String → Float) :
    Source.read? constant f.element code.source = some (f.reading constant) := by
  rw [h.source]
  refine Function.read?_render ⟨isElementType_of_cType? h.element, hname, fun t ht => ?_, fun b hb => ?_,
    h.usesAll hplaces (fun name s hs => hwords.find (hfind name s hs)) fun _ _ _ _ _ => trivial⟩
  · rw [h.params, List.mem_map] at ht
    obtain ⟨s, hs, rfl⟩ := ht
    exact hwords.symbol ((List.mem_append.mp hs).elim List.mem_of_mem_filter List.mem_of_mem_filter)
  · rw [h.buffers, List.mem_map] at hb
    obtain ⟨s, hs, rfl⟩ := hb
    exact hwords.symbol (List.mem_of_mem_filter (List.mem_of_mem_filter hs))

end Emits

end LoopNest.C
