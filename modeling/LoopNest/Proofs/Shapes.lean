import LoopNest.Proofs.Correctness
import LoopNest.Proofs.Typed.Results

/-!
# Shapes

Four functions compute the shape of an expression: validation, the expression itself, the builder
for the node of the expression, and evaluation for the tensor that it returns. On a valid program
all of them agree at every occurrence of an expression, the tree below the root of an assignment is
that of the expression of its statement, and all occurrences of a label share one node
(`build_matches`).
-/

namespace LoopNest

open Typed (Expr Stmt Scope holdable countable)

namespace Typed

variable {α : Type} [Scalar α] {K : ShapeClass} {p : Program} {s : Scope}

/-! ## Validation of parts -/

/-- What is declared and what was assigned before the statement at a position. -/
def Program.scopeAt (p : Program) (i : Nat) : Scope :=
  { decls := p.decls, written := ((p.stmts.take i).map Stmt.dst).reverse }

theorem checkStmts_getElem? {stmts : List Stmt} {i k : Nat} {st : Stmt}
    (h : checkStmts s i stmts = .ok ()) (hst : stmts[k]? = some st) :
    Scope.stmt { s with written := ((stmts.take k).map Stmt.dst).reverse ++ s.written } st = .ok () := by
  induction stmts generalizing s i k with
  | nil => cases hst
  | cons st' rest ih =>
    rw [checkStmts] at h
    split at h
    · cases h
    · rename_i hcheck
      cases k with
      | zero =>
        cases hst
        exact hcheck
      | succ k =>
        have := ih h hst
        simpa using this

/-- Every statement of a valid program is checked in its scope. -/
theorem Program.Valid.stmt_ok (h : p.Valid) {i : Nat} {st : Stmt} (hst : p.stmts[i]? = some st) :
    (p.scopeAt i).stmt st = .ok () := by
  simp only [Program.Valid, validate, check_eq_ok, bind_eq_ok] at h
  obtain ⟨-, ⟨⟩, -, hstmts⟩ := h
  simpa [Program.scopeAt] using checkStmts_getElem? hstmts hst

/-- The operands of an expression that passes validation pass it. -/
theorem Scope.expr_operand {e x : Expr} {sh : Shape} (h : s.expr e = .ok sh) (hx : x ∈ e.operands) :
    ∃ sh', s.expr x = .ok sh' := by
  cases e with
  | missing | ident | const | shared => cases hx
  | binary _ y z =>
    simp only [Scope.expr, check_eq_ok, bind_eq_ok] at h
    obtain ⟨-, ys, hy, zs, hz, -⟩ := h
    rw [Expr.operands, List.mem_pair] at hx
    rcases hx with rfl | rfl
    exacts [⟨ys, hy⟩, ⟨zs, hz⟩]
  | scale op c y =>
    simp only [Scope.expr, check_eq_ok, bind_eq_ok] at h
    obtain ⟨-, cs, hc, ys, hy, -⟩ := h
    rw [Expr.operands] at hx
    split at hx <;> rw [List.mem_pair] at hx <;> rcases hx with rfl | rfl
    exacts [⟨ys, hy⟩, ⟨cs, hc⟩, ⟨cs, hc⟩, ⟨ys, hy⟩]
  | product y z | contract y _ z _ =>
    simp only [Scope.expr, bind_eq_ok] at h
    obtain ⟨ys, hy, zs, hz, -⟩ := h
    rw [Expr.operands, List.mem_pair] at hx
    rcases hx with rfl | rfl
    exacts [⟨ys, hy⟩, ⟨zs, hz⟩]
  | stack ms =>
    obtain ⟨_, _, first, -, hms, -⟩ := Scope.stack_ok h
    exact ⟨first, hms x hx⟩
  | transpose y _ =>
    obtain ⟨ys, hy, -⟩ := Scope.transpose_ok h
    rw [Expr.operands, List.mem_singleton] at hx
    exact ⟨ys, hx ▸ hy⟩

theorem Scope.expr_occurs {e e' : Expr} {path : List Nat} {sh : Shape} (h : s.expr e = .ok sh)
    (hocc : e.Occurs path e') : ∃ sh', s.expr e' = .ok sh' := by
  induction hocc generalizing sh with
  | refl => exact ⟨sh, h⟩
  | shared _ ih => exact ih h
  | operand hx _ ih =>
    obtain ⟨sh', hsh'⟩ := Scope.expr_operand h (List.mem_of_getElem? hx)
    exact ih hsh'

/-- What occurs in a statement of a valid program passes validation and obeys the shape rules. -/
theorem Program.Valid.shaped (h : p.Valid) (hK : p.Within K) {i : Nat} {st : Stmt}
    (hst : p.stmts[i]? = some st) {path : List Nat} {e : Expr} (hocc : st.expr.Occurs path e) :
    ∃ sh, (p.scopeAt i).expr e = .ok sh ∧ e.Shaped K (p.scopeAt i) sh := by
  obtain ⟨_, _, -, -, -, hexpr⟩ := Scope.stmt_ok (h.stmt_ok hst)
  obtain ⟨sh, hsh⟩ := Scope.expr_occurs hexpr hocc
  refine ⟨sh, hsh, Scope.expr_shaped (fun d hd => ((h.checked hK).fits d hd).pos) ?_ hsh⟩
  exact fun part hpart => hK.parts st (List.mem_of_getElem? hst) part (hocc.parts_subset hpart)

/-! ## Evaluation of parts -/

/-- The memory when the first statements have run on the given inputs, up to a position. -/
def Program.memoryAt (p : Program) (inputs : Inputs α) (i : Nat) : Except Failure (Memory α) := do
  let mem ← initialMemory inputs p.decls {}
  orFault (evalStmts mem (p.stmts.take i))

theorem Scope.Runs.take {stmts : List Stmt} (h : s.Runs K stmts) (i : Nat) : s.Runs K (stmts.take i) := by
  induction stmts generalizing s i with
  | nil => simpa using h
  | cons st rest ih =>
    cases i with
    | zero => trivial
    | succ i => exact ⟨h.1, ih h.2 i⟩

/-- Between the statements every tensor has the shape of its declaration. -/
theorem Program.Checked.memoryAt_sized (h : p.Checked K) {inputs : Inputs α} {i : Nat}
    {mem : Memory α} (hmem : p.memoryAt inputs i = .ok mem) :
    mem.Sized (Symbols.shapes p.decl?) := by
  obtain ⟨mem₀, hinit, hrun⟩ := bind_eq_ok.mp hmem
  obtain ⟨hsized, -⟩ := initialMemory_sized h.nodup hinit
  have hsized₀ : mem₀.Sized (Symbols.shapes p.decl?) := by
    intro name stored hS
    rw [Symbols.shapes, Option.map_eq_some_iff] at hS
    obtain ⟨d, hd, rfl⟩ := hS
    have hname := Program.Checked.decl?_name hd
    subst hname
    exact hsized d (h.mem_decls.mpr hd)
  cases hstmts : evalStmts mem₀ (p.stmts.take i) with
  | none =>
    rw [hstmts] at hrun
    cases hrun
  | some mem₁ =>
    rw [hstmts] at hrun
    cases hrun
    exact evalStmts_sized hstmts hsized₀

/-- When an array can hold every intermediate result, the program runs up to every position. -/
theorem Program.Checked.memoryAt_spec (h : p.Checked K) (hK : K.Bounded) {inputs : Inputs α}
    (hinputs : inputs.Fill p.decl?) (i : Nat) :
    ∃ mem, p.memoryAt inputs i = .ok mem ∧ mem.Fits (Symbols.shapes p.decl?) := by
  obtain ⟨mem₀, hinit, hfits₀, -⟩ := h.initialMemory_spec hK hinputs
  obtain ⟨mem, hrun, hfits, -⟩ :=
    evalStmts_spec hK (h.runs.take i) (h.sound.countable hK) hfits₀ (.refl _)
  refine ⟨mem, ?_, hfits⟩
  rw [Program.memoryAt, hinit]
  show orFault (evalStmts mem₀ (p.stmts.take i)) = _
  rw [hrun]
  rfl

end Typed

/-! ## Agreement -/

variable {α : Type} [Scalar α] {p : Typed.Program}

/-- All shapes of an expression in the statement at position `i` are the same: what validation
computes, what the expression says, what its node says, and the dimensions of the tensor that
evaluation returns. It returns one when an array can hold each tensor and intermediate result. -/
structure Typed.Program.ShapesAgree (α : Type) [Scalar α] (p : Typed.Program) (i : Nat) (e : Expr)
    (n : Node) (sh : Shape) : Prop where
  validated : (p.scopeAt i).expr e = .ok sh
  own : e.shape = some sh
  node : n.shape = sh
  returned : ∀ (inputs : Inputs α) (mem : Memory α) (t : Tensor α), p.memoryAt inputs i = .ok mem →
    e.eval mem = some t → t.dims = sh ∧
      (Shape.count sh < 0x8000000000000000 → (t.data.size : Int) = Shape.count sh)
  returns : p.Within holdable → ∀ inputs : Inputs α, inputs.Fill p.decl? →
    ∃ mem t, p.memoryAt inputs i = .ok mem ∧ e.eval mem = some t

/-- An assignment program translates a typed one, node for node. -/
structure Typed.Program.Matches (α : Type) [Scalar α] (p : Typed.Program)
    (q : LoopNest.Program) : Prop where
  length_eq : q.assignments.length = p.stmts.length
  tree_eq : ∀ (i : Nat) (st : Stmt) (a : Assignment), p.stmts[i]? = some st →
    q.assignments[i]? = some a → (q.tree a.expr).strip = st.expr.tree
  /-- An expression and the node at the same place have the same shape. -/
  shapes : ∀ (i : Nat) (st : Stmt) (a : Assignment), p.stmts[i]? = some st →
    q.assignments[i]? = some a → ∀ path e, st.expr.Occurs path e → ∃ id n sh,
      q.follow? a.expr path = some id ∧ q.node? id = some n ∧ p.ShapesAgree α i e n sh
  /-- All occurrences of a shared expression are one node. -/
  sharing : ∀ (i i' : Nat) (st st' : Stmt) (a a' : Assignment), p.stmts[i]? = some st →
    q.assignments[i]? = some a → p.stmts[i']? = some st' → q.assignments[i']? = some a' →
    ∀ path path' label e e', st.expr.Occurs path (.shared label e) →
      st'.expr.Occurs path' (.shared label e') → q.follow? a.expr path = q.follow? a'.expr path'

theorem Typed.Program.Valid.shapesAgree (hvalid : p.Valid) {i : Nat} {st : Stmt}
    (hst : p.stmts[i]? = some st) {path : List Nat} {e : Expr} (hocc : st.expr.Occurs path e)
    {n : Node} (hn : n.shape = e.tree.shape) : ∃ sh, p.ShapesAgree α i e n sh := by
  obtain ⟨sh, hexpr, hshaped⟩ := hvalid.shaped p.within_positive hst hocc
  refine ⟨sh, hexpr, hshaped.shape_eq, hn.trans hshaped.tree_shape, fun inputs mem t hmem ht => ?_,
    fun hhold inputs hinputs => ?_⟩
  · have hsized := hshaped.eval_sized ((hvalid.checked p.within_positive).memoryAt_sized hmem) ht
    exact ⟨hsized.1, hsized.size_eq_count hshaped.mem⟩
  · have hp := hvalid.checked hhold
    obtain ⟨mem, hmem, hfits⟩ := hp.memoryAt_spec holdable_bounded hinputs i
    obtain ⟨_, -, hshaped'⟩ := hvalid.shaped hhold hst hocc
    obtain ⟨t, ht, -⟩ := hshaped'.eval_spec holdable_bounded (fun _ _ hd => Symbols.shapes_eq hd) hfits
      (hp.sound.countable holdable_bounded)
    exact ⟨mem, t, hmem, ht⟩

/-- The program that is built from a valid one translates it node for node, and all computations of
shapes agree. -/
theorem build_matches (hvalid : p.Valid) (hcoh : p.Coherent) :
    ∃ q, build p = .ok q ∧ p.Matches α q := by
  obtain ⟨q, cs, hbuild, hlaid, -, hcopies, -, -, -, -, site, hsited⟩ :=
    build_spec hvalid hcoh (hvalid.checked p.within_positive)
  have hassignment : ∀ {i : Nat} {st : Stmt} {a : Assignment}, p.stmts[i]? = some st →
      q.assignments[i]? = some a → ∃ t : Tree, a.expr = t.root ∧ t.StoredIn q.nodes ∧
        t.strip = st.expr.tree.strip ∧ st.expr.Sited q site t.root := by
    intro i st a hst ha
    rw [hlaid.assignments, List.getElem?_map, Option.map_eq_some_iff] at ha
    obtain ⟨c, hc, rfl⟩ := ha
    have hclause : p.clauses[i]? = some (st.clause p.decl?) := by
      rw [Typed.Program.clauses, List.getElem?_map, hst, Option.map_some]
    obtain ⟨c', hc', hcopy⟩ := forall₂_getElem? hcopies hclause
    obtain ⟨c'', hc'', hsite⟩ := forall₂_getElem? hsited hst
    rw [hc] at hc' hc''
    cases hc'
    cases hc''
    exact ⟨c.tree, rfl, hlaid.stored c (List.mem_of_getElem? hc), hcopy.strip, hsite⟩
  refine ⟨q, hbuild, ?_, fun i st a hst ha => ?_, fun i st a hst ha path e hocc => ?_,
    fun i i' st st' a a' hst ha hst' ha' path path' label e e' hocc hocc' => ?_⟩
  · rw [hlaid.assignments, List.length_map, ← hsited.length_eq]
  · obtain ⟨t, hroot, hstored, hstrip, -⟩ := hassignment hst ha
    rw [hroot, hstored.tree_eq, hstrip, Expr.strip_tree]
  · obtain ⟨t, hroot, hstored, hstrip, -⟩ := hassignment hst ha
    obtain ⟨u, hfollow, hu, hustrip⟩ := hocc.stored hstored hstrip
    obtain ⟨n, hn, hshape⟩ := hu.node_shape
    obtain ⟨sh, hagree⟩ := hvalid.shapesAgree (α := α) hst hocc
      (hshape.trans (Tree.shape_eq_of_strip hustrip))
    exact ⟨u.root, n, sh, hroot ▸ hfollow, hn, hagree⟩
  · obtain ⟨t, hroot, -, -, hsite⟩ := hassignment hst ha
    obtain ⟨t', hroot', -, -, hsite'⟩ := hassignment hst' ha'
    obtain ⟨id, hid, hlabel⟩ := hsite path label e hocc
    obtain ⟨id', hid', hlabel'⟩ := hsite' path' label e' hocc'
    rw [hroot, hroot', hid, hid', ← hlabel, ← hlabel']

/-- `g = outer(x, x)` and `h = g + transpose(g, [(0,1)])`, where `g` is one shared expression. -/
def sharing : Typed.Program where
  name := "sharing"
  decls := [⟨"x", [2], .input⟩, ⟨"g", [2, 2], .output⟩, ⟨"h", [2, 2], .output⟩]
  stmts :=
    let xx : Expr := .shared 0 (.product (.ident "x" [2]) (.ident "x" [2]))
    [{ dst := "g", expr := xx }, { dst := "h", expr := .binary .add xx (.transpose xx [⟨0, 1⟩]) }]

/-- The shared product is built once for three places in two statements. -/
theorem build_matches_sharing : sharing.Valid ∧ sharing.Coherent ∧
    ∃ q, build sharing = .ok q ∧ sharing.Matches Float q := by
  have hvalid : sharing.Valid := rfl
  have hcoh : sharing.Coherent := by
    intro label e e' he he'
    simp only [sharing, Expr.parts, List.flatMap_cons, List.flatMap_nil, List.append_nil,
      List.cons_append, List.nil_append, List.mem_cons, List.not_mem_nil, reduceCtorEq, false_or,
      or_false, or_self, Expr.shared.injEq] at he he'
    rw [he.2, he'.2]
  exact ⟨hvalid, hcoh, build_matches hvalid hcoh⟩

/-- With fewer than `2^63` elements only, there may be an expression that evaluation returns no
tensor for. -/
theorem returns_overflowing_fails :
    ¬ ∀ (p : Typed.Program) (inputs : Inputs Float), p.Valid → p.Coherent → p.Within countable →
      inputs.Fill p.decl? → ∀ (i : Nat) (st : Stmt) (path : List Nat) (e : Expr),
        p.stmts[i]? = some st → st.expr.Occurs path e → ∃ mem t, p.memoryAt inputs i = .ok mem ∧ e.eval mem = some t := by
  intro h
  obtain ⟨mem, t, hmem, ht⟩ := h overflowing [] overflowing_valid overflowing_coherent
    overflowing_within (Inputs.fill_nil _) 0 _ [0, 0] _ rfl
    (.operand (k := 0) rfl (.operand (k := 0) rfl .refl))
  have hsized := (overflowing_valid.checked overflowing_within).memoryAt_sized hmem
  obtain ⟨a, ha, hdims, -⟩ := hsized "a" [50] rfl
  rw [eval_fourfold_square ⟨a, ha, hdims⟩] at ht
  cases ht

end LoopNest
