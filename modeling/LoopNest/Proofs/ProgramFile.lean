import LoopNest.ProgramFile.Tables
import LoopNest.Proofs.Correctness

/-!
# Program files

The tables of a program file are a faithful spelling of typed programs. `FileTable.ofProgram` spells
a program, except for the labels that say which equal expressions are one, and reading its tables
gives the program back (`FileTable.load_ofProgram`). Whatever else is read is a valid program with
values that fit its inputs (`FileTable.load_eq_ok`). Evaluation finds nothing to complain about
there, and succeeds as long as an array can hold each tensor and each intermediate result
(`FileTable.load_faithful`).
-/

namespace LoopNest

open Typed (Expr Stmt Scope StmtError holdable countable)

/-! ## Labels -/

namespace Typed

mutual
/-- An expression without its labels. -/
def Expr.plain : Expr → Expr
  | .missing => .missing
  | .ident name dims => .ident name dims
  | .const v => .const v
  | .binary op x y => .binary op x.plain y.plain
  | .scale op c x => .scale op c.plain x.plain
  | .product x y => .product x.plain y.plain
  | .contract x xs y ys => .contract x.plain xs y.plain ys
  | .stack ms => .stack (plainAll ms)
  | .transpose x pairs => .transpose x.plain pairs
  | .shared _ e => e.plain

/-- Several expressions without their labels. -/
def Expr.plainAll : List Expr → List Expr
  | [] => []
  | e :: es => e.plain :: plainAll es
end

theorem Expr.plainAll_eq (es : List Expr) : plainAll es = es.map plain := by
  induction es with
  | nil => rfl
  | cons e es ih => rw [plainAll, ih, List.map_cons]

/-- A statement without labels. -/
def Stmt.plain (st : Stmt) : Stmt := { st with expr := st.expr.plain }

/-- A program without labels: what remains when it does not matter which expressions are shared. -/
def Program.plain (p : Program) : Program := { p with stmts := p.stmts.map Stmt.plain }

variable {s : Scope} {e e' : Expr}

theorem ne_empty_of_isIdentifier {name : String} (h : isIdentifier name) : name ≠ "" := by
  rintro rfl
  cases h

/-! Validation shows expressions in its errors, and does not look at labels otherwise. -/

theorem checkAxes_congr {side : String} {rank : Nat} {before axes : List Int}
    (h : checkAxes e side rank before axes = .ok ()) :
    checkAxes e' side rank before axes = .ok () := by
  induction axes generalizing before with
  | nil => rfl
  | cons ax axes ih =>
    rw [checkAxes] at h ⊢
    split at h
    · cases h
    · rename_i hin
      rw [if_neg hin]
      split at h
      · cases h
      · rename_i hnew
        rw [if_neg hnew]
        exact ih h

theorem checkLengths_congr {x y : Shape} {ls rs : List Int}
    (h : checkLengths e x y ls rs = .ok ()) : checkLengths e' x y ls rs = .ok () := by
  induction ls generalizing rs with
  | nil => rfl
  | cons l ls ih =>
    cases rs with
    | nil => rfl
    | cons r rs =>
      rw [checkLengths] at h ⊢
      split at h
      · rename_i heq
        rw [if_pos heq]
        exact ih h
      · cases h

theorem contractedShape_congr {x y sh : Shape} {ls rs : List Int}
    (h : contractedShape e x ls y rs = .ok sh) : contractedShape e' x ls y rs = .ok sh := by
  simp only [contractedShape, check_eq_ok, bind_eq_ok] at h ⊢
  obtain ⟨hlen, ⟨⟩, hl, ⟨⟩, hr, ⟨⟩, hlens, hsh⟩ := h
  exact ⟨hlen, (), checkAxes_congr hl, (), checkAxes_congr hr, (), checkLengths_congr hlens, hsh⟩

theorem Scope.members_plain {first : Shape} {i : Nat} {ms : List Expr}
    (hms : ∀ m ∈ ms, ∀ {sh : Shape}, s.expr m = .ok sh → s.expr m.plain = .ok sh)
    (h : s.members e first i ms = .ok ()) : s.members e' first i (ms.map Expr.plain) = .ok () := by
  induction ms generalizing i with
  | nil => rfl
  | cons m ms ih =>
    rw [List.forall_mem_cons] at hms
    simp only [List.map_cons, Scope.members, check_eq_ok, bind_eq_ok] at h ⊢
    obtain ⟨sh, hm, hsh, hrest⟩ := h
    exact ⟨sh, hms.1 hm, hsh, ih hms.2 hrest⟩

theorem Scope.expr_plain {sh : Shape} (h : s.expr e = .ok sh) : s.expr e.plain = .ok sh := by
  induction e using Expr.inductionOn generalizing sh with
  | missing | ident | const => exact h
  | binary op x y ihx ihy =>
    simp only [Expr.plain, Scope.expr, check_eq_ok, bind_eq_ok] at h ⊢
    obtain ⟨hop, xs, hx, ys, hy, heq, hsh⟩ := h
    exact ⟨hop, xs, ihx hx, ys, ihy hy, heq, hsh⟩
  | scale op c x ihc ihx =>
    simp only [Expr.plain, Scope.expr, check_eq_ok, bind_eq_ok] at h ⊢
    obtain ⟨hop, cs, hc, xs, hx, hscalar, hsh⟩ := h
    exact ⟨hop, cs, ihc hc, xs, ihx hx, hscalar, hsh⟩
  | product x y ihx ihy =>
    simp only [Expr.plain, Scope.expr, bind_eq_ok] at h ⊢
    obtain ⟨xs, hx, ys, hy, hsh⟩ := h
    exact ⟨xs, ihx hx, ys, ihy hy, hsh⟩
  | contract x ls y rs ihx ihy =>
    simp only [Expr.plain, Scope.expr, bind_eq_ok] at h ⊢
    obtain ⟨xs, hx, ys, hy, hsh⟩ := h
    exact ⟨xs, ihx hx, ys, ihy hy, contractedShape_congr hsh⟩
  | stack ms ih =>
    cases ms with
    | nil => exact h
    | cons m ms =>
      rw [List.forall_mem_cons] at ih
      simp only [Expr.plain, Expr.plainAll, Scope.expr, bind_eq_ok] at h ⊢
      obtain ⟨first, hm, ⟨⟩, hms, hsh⟩ := h
      rw [Expr.plainAll_eq, List.length_map]
      exact ⟨first, ih.1 hm, (), members_plain (fun m hm _ => ih.2 m hm) hms, hsh⟩
  | transpose x pairs ih =>
    simp only [Expr.plain, Scope.expr, bind_eq_ok] at h ⊢
    obtain ⟨xs, hx, h⟩ := h
    refine ⟨xs, ih hx, ?_⟩
    split at h
    · simp [throw, throwThe, MonadExceptOf.throw] at h
    · exact h
  | shared label e ih => exact ih h

theorem Scope.stmt_eq_ok {st : Stmt} {d : Symbol} {sh : Shape} (hd : s.find? st.dst = some d)
    (hrole : d.role ≠ .input) (hfwd : forward st.perm d.shape = some sh)
    (hexpr : s.expr st.expr = .ok sh) : s.stmt st = .ok () := by
  have hinside : firstOutside? st.perm d.shape.rank = none :=
    firstOutside?_eq_none_iff.mpr (within_of_forward hfwd)
  have hwant : d.shape.permute st.perm = some sh := hfwd
  unfold Scope.stmt
  simp only [hd, if_neg hrole, hinside, hexpr, hwant]
  cases hpresent : st.expr with
  | missing =>
    rw [hpresent] at hexpr
    cases hexpr
  | _ => simp [bind, Except.bind, pure, Except.pure]

theorem Scope.stmt_plain {st : Stmt} (h : s.stmt st = .ok ()) : s.stmt st.plain = .ok () := by
  obtain ⟨d, sh, hd, hrole, hfwd, hexpr⟩ := Scope.stmt_ok h
  exact Scope.stmt_eq_ok hd hrole hfwd (Scope.expr_plain hexpr)

theorem checkStmts_plain {i : Nat} {stmts : List Stmt} (h : checkStmts s i stmts = .ok ()) :
    checkStmts s i (stmts.map Stmt.plain) = .ok () := by
  induction stmts generalizing s i with
  | nil => rfl
  | cons st rest ih =>
    rw [checkStmts] at h
    split at h
    · cases h
    · rename_i hst
      rw [List.map_cons, checkStmts, Scope.stmt_plain hst]
      exact ih h

theorem Program.Valid.name_ne_empty {p : Program} (h : p.Valid) : p.name ≠ "" :=
  ne_empty_of_isIdentifier h.isIdentifier_name

/-- A valid program is valid without its labels. -/
theorem Program.Valid.plain {p : Program} (h : p.Valid) : p.plain.Valid := by
  simp only [Program.Valid, validate, check_eq_ok, bind_eq_ok] at h ⊢
  obtain ⟨hname, ⟨⟩, hdecls, hstmts⟩ := h
  exact ⟨hname, (), hdecls, checkStmts_plain hstmts⟩

/-! Neither does evaluation look at labels. -/

variable {α : Type} [Scalar α] {mem : Memory α}

theorem Expr.evalAll_plain {es : List Expr} (h : ∀ e ∈ es, e.plain.eval mem = e.eval mem) :
    Expr.evalAll mem (es.map plain) = Expr.evalAll mem es := by
  induction es with
  | nil => rfl
  | cons e es ih =>
    rw [List.forall_mem_cons] at h
    rw [List.map_cons, evalAll, evalAll, h.1, ih h.2]

theorem Expr.eval_plain (e : Expr) : e.plain.eval mem = e.eval mem := by
  induction e using Expr.inductionOn with
  | missing | ident | const => rfl
  | binary op x y ihx ihy | product x y ihx ihy | contract x ls y rs ihx ihy =>
    simp only [plain, eval, ihx, ihy]
  | scale op c x ihc ihx => simp only [plain, eval, ihc, ihx]
  | stack ms ih => rw [plain, plainAll_eq, eval, eval, evalAll_plain ih]
  | transpose x pairs ih => simp only [plain, eval, ih]
  | shared label e ih => rw [plain, ih, eval]

theorem evalStmts_plain (stmts : List Stmt) :
    evalStmts mem (stmts.map Stmt.plain) = evalStmts mem stmts := by
  induction stmts generalizing mem with
  | nil => rfl
  | cons st rest ih =>
    have hst : st.plain.eval mem = st.eval mem := by
      rw [Stmt.eval, Stmt.eval, Stmt.plain, Expr.eval_plain]
    rw [List.map_cons, evalStmts, evalStmts, hst]
    exact bind_congr fun mem' => ih

theorem Program.Valid.eval_plain {p : Program} (h : p.Valid) (inputs : Inputs α) :
    eval p.plain inputs = eval p inputs := by
  rw [eval, eval, show validate p = .ok () from h, show validate p.plain = .ok () from h.plain]
  exact bind_congr fun mem => congrArg orFault (evalStmts_plain p.stmts)

end Typed

/-! ## Tables that spell programs -/

/-- Swaps as pairs. -/
def pairsOf (swaps : List Swap) : List (List Int) := swaps.map fun p => [p.a, p.b]

mutual
/-- The table that spells an expression. The operand `x` of a scalar operation is the tensor,
whichever operand comes first in the expression. -/
def ExprTable.ofExpr : Expr → ExprTable
  | .missing => {}
  | .ident name _ => { ident := name }
  | .const v => { const := some v }
  | .binary op x y => { op := op.name, x := some (ofExpr x), y := some (ofExpr y) }
  | .scale op c x =>
    { op := if op = .scalarDiv then "sdiv" else "smul", x := some (ofExpr x),
      scalar := some (ofExpr c) }
  | .product x y => { op := "outer", x := some (ofExpr x), y := some (ofExpr y) }
  | .contract x xs y ys =>
    { op := "contract", x := some (ofExpr x), xAxes := xs, y := some (ofExpr y), yAxes := ys }
  | .stack ms => { op := "stack", members := ofMembers ms }
  | .transpose x pairs => { op := "transpose", x := some (ofExpr x), pairs := pairsOf pairs }
  | .shared _ e => ofExpr e

/-- The tables that spell the members of a stack. -/
def ExprTable.ofMembers : List Expr → List (Option ExprTable)
  | [] => []
  | e :: es => some (ofExpr e) :: ofMembers es
end

/-- The table that spells a declaration. -/
def DeclTable.ofSymbol (d : Symbol) : DeclTable :=
  { name := d.name, shape := d.shape, kind := d.role.name }

/-- The table that spells a statement. -/
def StmtTable.ofStmt (st : Stmt) : StmtTable :=
  { dst := st.dst, perm := pairsOf st.perm, expr := some (.ofExpr st.expr) }

/-- The tables that spell a program with values for its inputs. -/
def FileTable.ofProgram (p : Typed.Program) (inputs : Inputs Float) : FileTable :=
  { name := p.name, decls := p.decls.map .ofSymbol, stmts := p.stmts.map .ofStmt, inputs }

/-! ## What is spelled is read -/

theorem mapM_map_eq_ok {σ τ ε : Type _} {f : τ → Except ε σ} {g : σ → τ} {l : List σ}
    (h : ∀ x ∈ l, f (g x) = .ok x) : (l.map g).mapM f = .ok l := by
  induction l with
  | nil => rfl
  | cons x l ih =>
    rw [List.forall_mem_cons] at h
    rw [List.map_cons, List.mapM_cons, h.1, ih h.2]
    rfl

theorem swapsOf_pairsOf (swaps : List Swap) : swapsOf (pairsOf swaps) = .ok swaps :=
  mapM_map_eq_ok fun _ _ => rfl

variable {K : ShapeClass} {s : Scope}

theorem memberExprs_ofMembers {ms : List Expr}
    (h : ∀ e ∈ ms, (ExprTable.ofExpr e).expr s.decls = .ok e.plain) :
    memberExprs s.decls (ExprTable.ofMembers ms) = .ok (Expr.plainAll ms) := by
  induction ms with
  | nil => rfl
  | cons e es ih =>
    rw [List.forall_mem_cons] at h
    rw [ExprTable.ofMembers, memberExprs, optionExpr, h.1, ih h.2]
    rfl

/-- The table of an expression that obeys the shape rules is read as the expression. -/
theorem ExprTable.expr_ofExpr (hnames : ∀ d ∈ s.decls, d.name ≠ "") {e : Expr} {sh : Shape}
    (h : e.Shaped K s sh) : (ofExpr e).expr s.decls = .ok e.plain := by
  induction h with
  | @ident d name hd _ _ =>
    have hname : d.name = name := by simpa using List.find?_some hd
    -- an empty name counts as none
    have hne : name ≠ "" := hname ▸ hnames d (List.mem_of_find?_eq_some hd)
    rw [Scope.find?] at hd
    simp only [ofExpr, ExprTable.expr, if_pos hne, hd, hname, Expr.plain]
  | const => rfl
  | @binary op x y _ hop _ _ ihx ihy =>
    have hkind : binaryKind? op.name = some op := by cases op <;> first | rfl | cases hop
    simp only [ofExpr, ExprTable.expr, hkind, optionExpr, ihx, ihy, Expr.plain]
    rfl
  | @scale op c x _ hop _ _ ihc ihx =>
    cases op with
    | scalarMul | scalarDiv =>
      simp only [ofExpr, ExprTable.expr, optionExpr, ihc, ihx, Expr.plain]
      rfl
    | _ => cases hop
  | product _ _ _ ihx ihy =>
    simp only [ofExpr, ExprTable.expr, optionExpr, ihx, ihy, Expr.plain]
    rfl
  | contract _ _ _ _ _ ihx ihy =>
    simp only [ofExpr, ExprTable.expr, optionExpr, ihx, ihy, Expr.plain]
    rfl
  | stack _ _ ih =>
    simp only [ofExpr, ExprTable.expr, memberExprs_ofMembers ih, Expr.plain]
    rfl
  | transpose _ _ ih =>
    simp only [ofExpr, ExprTable.expr, optionExpr, ih, swapsOf_pairsOf, Expr.plain]
    rfl
  | shared _ ih => exact ih

namespace FileTable

theorem roleOfKind_name {r : Role} (h : r ∈ [Role.local, .input, .output, .inout]) :
    roleOfKind? r.name = some r := by
  simp only [List.mem_cons, List.not_mem_nil, or_false] at h
  rcases h with rfl | rfl | rfl | rfl <;> rfl

theorem symbols_ofProgram {p : Typed.Program} (inputs : Inputs Float)
    (hroles : ∀ d ∈ p.decls, d.role ∈ [Role.local, .input, .output, .inout]) :
    (ofProgram p inputs).symbols = .ok p.decls :=
  mapM_map_eq_ok fun d hd => by simp only [DeclTable.ofSymbol, roleOfKind_name (hroles d hd)]

theorem statement_ofStmt (hnames : ∀ d ∈ s.decls, d.name ≠ "") {st : Stmt} (h : s.Assigns K st) :
    statement s.decls (.ofStmt st) = .ok st.plain := by
  obtain ⟨_, sh, -, -, -, hshaped⟩ := h
  simp only [statement, StmtTable.ofStmt, swapsOf_pairsOf, optionExpr,
    ExprTable.expr_ofExpr hnames hshaped]
  rfl

theorem statements_ofStmt (hnames : ∀ d ∈ s.decls, d.name ≠ "") {stmts : List Stmt}
    (h : s.Runs K stmts) (i : Nat) :
    statements s.decls i (stmts.map .ofStmt) = .ok (stmts.map Stmt.plain) := by
  induction stmts generalizing s i with
  | nil => rfl
  | cons st rest ih =>
    rw [List.map_cons, statements, statement_ofStmt hnames h.1]
    -- what was assigned so far matters to the rules, not to the spelling
    simp only [ih (s := { s with written := st.dst :: s.written }) hnames h.2]
    rfl

end FileTable

/-! ## What is read is valid -/

/-- Every entry is for an input and has as many values as its shape asks for. -/
def Inputs.Fit {α : Type} (inputs : Inputs α) (find : Symbols) : Prop :=
  ∀ given ∈ inputs, ∃ s, find given.1 = some s ∧ s.role.isInput = true ∧
    (given.2.length : Int) = s.shape.size

theorem Inputs.Fit.fill {α : Type} {inputs : Inputs α} {find : Symbols} (h : inputs.Fit find) :
    inputs.Fill find := by
  induction inputs with
  | nil => exact Inputs.fill_nil find
  | cons given rest ih =>
    obtain ⟨⟨s, hs, hrole, hlen⟩, hrest⟩ := List.forall_mem_cons.mp h
    exact (ih hrest).cons hs hrole hlen

namespace FileTable

theorem checkInput_eq_ok {p : Typed.Program} {given : String × List Float} :
    checkInput p given = .ok () ↔ ∃ s, p.decl? given.1 = some s ∧ s.role.isInput = true ∧
      (given.2.length : Int) = s.shape.size := by
  unfold checkInput
  cases p.decl? given.1 with
  | none => simp
  | some s => cases hrole : s.role.isInput <;> simp [hrole]

theorem checkInputs_eq_ok {p : Typed.Program} {inputs : Inputs Float} :
    inputs.forM (checkInput p) = .ok () ↔ inputs.Fit p.decl? := by
  induction inputs with
  | nil => simp [Inputs.Fit, pure, Except.pure]
  | cons given rest ih =>
    rw [List.forM, bind_eq_ok, Inputs.Fit, List.forall_mem_cons, ← checkInput_eq_ok, ← Inputs.Fit,
      ← ih]
    exact ⟨fun ⟨(), h, hrest⟩ => ⟨h, hrest⟩, fun ⟨h, hrest⟩ => ⟨(), h, hrest⟩⟩

/-- A file is read when all declared kinds are known, its statements spell expressions, the program
that they make is valid, and the values fit its inputs. -/
theorem load_eq_ok {t : FileTable} {f : ProgramFile} : t.load = .ok f ↔
    ∃ decls stmts, t.symbols = .ok decls ∧ statements decls 0 t.stmts = .ok stmts ∧
      f = ⟨⟨if t.name.isEmpty then defaultName else t.name, decls, stmts⟩, t.inputs⟩ ∧
      f.program.Valid ∧ f.inputs.Fit f.program.decl? := by
  simp only [load, bind_eq_ok]
  constructor
  · rintro ⟨decls, hdecls, stmts, hstmts, h⟩
    split at h
    · cases h
    · rename_i hvalid
      obtain ⟨⟨⟩, hinputs, hf⟩ := bind_eq_ok.mp h
      cases hf
      exact ⟨decls, stmts, hdecls, hstmts, rfl, hvalid, checkInputs_eq_ok.1 hinputs⟩
  · rintro ⟨decls, stmts, hdecls, hstmts, rfl, hvalid, hfit⟩
    refine ⟨decls, hdecls, stmts, hstmts, ?_⟩
    rw [show Typed.validate _ = .ok () from hvalid]
    exact bind_eq_ok.mpr ⟨(), checkInputs_eq_ok.2 hfit, rfl⟩

/-- The tables of a program are read as the program. -/
theorem load_ofProgram {p : Typed.Program} {inputs : Inputs Float} (hvalid : p.Valid)
    (hroles : ∀ d ∈ p.decls, d.role ∈ [Role.local, .input, .output, .inout])
    (hfit : inputs.Fit p.decl?) : (ofProgram p inputs).load = .ok ⟨p.plain, inputs⟩ := by
  have hp := hvalid.checked p.within_positive
  have hnames : ∀ d ∈ p.decls, d.name ≠ "" := fun d hd =>
    Typed.ne_empty_of_isIdentifier (hp.fits d hd).name
  have hname : p.name.isEmpty = false := by simpa using hvalid.name_ne_empty
  refine load_eq_ok.2 ⟨p.decls, p.stmts.map Stmt.plain, symbols_ofProgram inputs hroles,
    statements_ofStmt (s := { decls := p.decls }) hnames hp.runs 0, ?_, hvalid.plain, hfit⟩
  simp only [ofProgram, hname]
  rfl

end FileTable

/-! ## What is read is evaluated -/

namespace Typed

variable {α : Type} [Scalar α]

theorem initialMemory_ne_error {inputs : Inputs α} {symbols : List Symbol} (mem : Memory α)
    (h : ∀ s ∈ symbols, ∀ vals ∈ inputs.lookup s.name, (vals.length : Int) = s.shape.size)
    (e : Diagnostic) : initialMemory inputs symbols mem ≠ .error (.error e) := by
  induction symbols generalizing mem with
  | nil =>
    intro hstart
    cases hstart
  | cons s rest ih =>
    rw [List.forall_mem_cons] at h
    rw [initialMemory, Tensor.zeros]
    split
    · cases hlookup : inputs.lookup s.name with
      | none => exact ih _ h.2
      | some vals =>
        have hlen : vals.length = s.shape.size.toNat := by
          have := h.1 vals hlookup
          omega
        simpa [orFault, bind, Except.bind, hlen] using ih _ h.2
    · intro hstart
      cases hstart

/-- Evaluation of a valid program has nothing to say against inputs that fill their shapes. It may
only fail for want of an array. -/
theorem Program.Valid.eval_ne_error {p : Program} (h : p.Valid) {inputs : Inputs α}
    (hfill : inputs.Fill p.decl?) (e : Diagnostic) : eval p inputs ≠ .error (.error e) := by
  have hp := h.checked p.within_positive
  have hlen : ∀ d ∈ p.decls, ∀ vals ∈ inputs.lookup d.name, (vals.length : Int) = d.shape.size := by
    intro d hd vals hvals
    obtain ⟨d', hd', -, hlen⟩ := hfill d.name vals hvals
    rw [hp.mem_decls.mp hd] at hd'
    cases hd'
    exact hlen
  have hstart := initialMemory_ne_error {} hlen e
  rw [eval, show validate p = .ok () from h]
  cases hmem : initialMemory inputs p.decls {} with
  | error failure =>
    rw [hmem] at hstart
    exact hstart
  | ok mem =>
    show orFault (evalStmts mem p.stmts) ≠ _
    cases evalStmts mem p.stmts with
    | none | some =>
      intro heval
      cases heval

end Typed

/-- The tables of a program are read as the program, and what is read can be evaluated. -/
theorem FileTable.load_faithful :
    (∀ (p : Typed.Program) (inputs : Inputs Float), p.Valid →
      (∀ d ∈ p.decls, d.role ∈ [Role.local, .input, .output, .inout]) → inputs.Fit p.decl? →
      (ofProgram p inputs).load = .ok ⟨p.plain, inputs⟩) ∧
    ∀ (t : FileTable) (f : ProgramFile), t.load = .ok f →
      f.program.Valid ∧ f.inputs = t.inputs ∧ f.inputs.Fit f.program.decl? ∧
      (∀ e, Typed.eval f.program f.inputs ≠ .error (.error e)) ∧
      (f.program.Within holdable → ∃ m, Typed.eval f.program f.inputs = .ok m) := by
  refine ⟨fun p inputs => load_ofProgram, fun t f hload => ?_⟩
  obtain ⟨decls, stmts, -, -, rfl, hvalid, hfit⟩ := load_eq_ok.1 hload
  refine ⟨hvalid, rfl, hfit, hvalid.eval_ne_error hfit.fill, fun hsize => ?_⟩
  obtain ⟨_, m, heval, -⟩ := (hvalid.checked hsize).eval_spec hvalid holdable_bounded hfit.fill
  exact ⟨m, heval⟩

/-- A matrix that is read and written comes back from its tables and is evaluated. -/
theorem FileTable.load_faithful_symmetrized :
    symmetrized.Valid ∧ (∀ d ∈ symmetrized.decls, d.role ∈ [Role.local, .input, .output, .inout]) ∧
      Inputs.Fit [("x", [(1 : Float), 2])] symmetrized.decl? ∧ symmetrized.plain.Within holdable ∧
      (ofProgram symmetrized [("x", [1, 2])]).load = .ok ⟨symmetrized.plain, [("x", [1, 2])]⟩ ∧
      ∃ m, Typed.eval symmetrized.plain [("x", [(1 : Float), 2])] = .ok m := by
  have hroles : ∀ d ∈ symmetrized.decls, d.role ∈ [Role.local, .input, .output, .inout] := by decide
  have hfit : Inputs.Fit [("x", [(1 : Float), 2])] symmetrized.decl? := by
    intro given hgiven
    obtain rfl := List.mem_singleton.mp hgiven
    exact ⟨_, rfl, rfl, rfl⟩
  have hsize : symmetrized.plain.Within holdable :=
    .of_shapes (fun _ hpos h => ⟨hpos, h⟩) (by decide) (by decide)
  have hload := load_faithful.1 symmetrized _ symmetrized_valid hroles hfit
  exact ⟨symmetrized_valid, hroles, hfit, hsize, hload, (load_faithful.2 _ _ hload).2.2.2.2 hsize⟩

/-- A file is also read when no array can hold a result of its program. -/
theorem FileTable.load_overflowing_faults :
    ¬ ∀ (t : FileTable) (f : ProgramFile), t.load = .ok f → f.program.Within countable →
      ∃ m, Typed.eval f.program f.inputs = .ok m := by
  intro h
  have hfit : Inputs.Fit ([] : Inputs Float) overflowing.decl? := List.forall_mem_nil _
  have hload := load_ofProgram overflowing_valid (by decide) hfit
  obtain ⟨m, hm⟩ := h _ _ hload (.of_shapes (fun _ hpos h => ⟨hpos, h⟩) (by decide) (by decide))
  have heval : Typed.eval overflowing.plain ([] : Inputs Float) = .error .fault :=
    (overflowing_valid.eval_plain []).trans eval_overflowing
  rw [heval] at hm
  cases hm

end LoopNest
