import LoopNest.Proofs.Code.Position

/-!
# Code that grows from the outside in

While an assignment is written, loops are only opened: the code is a list of steps, each a statement
or the head of a loop in which everything after it stands (`nest`). A `Scene` says what the arrays are
like before and after such code in the scope of some loops. `Emits` is about writing some of the
steps: whatever completes the code from where they end does so from where they begin.
-/

namespace LoopNest.C

/-! ## Steps -/

/-- What is added to the code: a statement, or the head of a loop around all that follows. -/
inductive Step where
  | put (s : Stmt)
  | enter (index : String) (extent : Int)

/-- The statements that steps amount to. -/
def nest : List Step → List Stmt
  | [] => []
  | .put s :: rest => s :: nest rest
  | .enter index extent :: rest => [.loop index extent (nest rest)]

theorem mem_nest {s : Stmt} {steps : List Step} (h : s ∈ nest steps) :
    .put s ∈ steps ∨ ∃ index extent body, s = .loop index extent body := by
  induction steps with
  | nil => simp [nest] at h
  | cons step rest ih =>
    cases step with
    | put t =>
      rcases List.mem_cons.mp h with rfl | h
      · exact .inl (.head _)
      · exact (ih h).imp_left (List.mem_cons_of_mem _)
    | enter index extent =>
      rw [nest, List.mem_singleton] at h
      exact .inr ⟨index, extent, _, h⟩

/-- The open loops, innermost first, and the statements outside of them. -/
abbrev Draft := List Frame × List Stmt

namespace Draft

/-- Adds a statement to the innermost open loop. -/
def write (d : Draft) (s : Stmt) : Draft :=
  match d.1 with
  | [] => ([], d.2 ++ [s])
  | f :: fs => ({ f with body := f.body ++ [s] } :: fs, d.2)

/-- Takes a step. -/
def add (d : Draft) : Step → Draft
  | .put s => d.write s
  | .enter index extent => ({ index, extent } :: d.1, d.2)

/-- Closes the innermost open loop. -/
def close (d : Draft) : Draft :=
  match d.1 with
  | [] => d
  | f :: fs => write (fs, d.2) (.loop f.index f.extent f.body)

/-- Closes `n` loops. -/
def closeLoops (d : Draft) : Nat → Draft
  | 0 => d
  | n + 1 => d.close.closeLoops n

/-- Adds several statements. -/
def writeAll (d : Draft) (ss : List Stmt) : Draft := ss.foldl write d

/-- Takes several steps. -/
def addAll (d : Draft) (steps : List Step) : Draft := steps.foldl add d

theorem addAll_append (d : Draft) (steps rest : List Step) :
    d.addAll (steps ++ rest) = (d.addAll steps).addAll rest := List.foldl_append

theorem writeAll_append (d : Draft) (ss ts : List Stmt) :
    d.writeAll (ss ++ ts) = (d.writeAll ss).writeAll ts := List.foldl_append

theorem length_write (d : Draft) (s : Stmt) : (d.write s).1.length = d.1.length := by
  obtain ⟨frames, done⟩ := d
  cases frames <;> rfl

theorem closeLoops_succ (d : Draft) (n : Nat) : d.closeLoops (n + 1) = (d.closeLoops n).close := by
  induction n generalizing d with
  | zero => rfl
  | succ n ih => exact ih d.close

theorem writeAll_enter (d : Draft) (index : String) (extent : Int) (body ss : List Stmt) :
    writeAll (⟨index, extent, body⟩ :: d.1, d.2) ss = (⟨index, extent, body ++ ss⟩ :: d.1, d.2) := by
  induction ss generalizing body with
  | nil => rw [List.append_nil]; rfl
  | cons s ss ih =>
    rw [List.append_cons]
    exact ih (body ++ [s])

/-- Closing the loops that steps have opened leaves the statements that they amount to. -/
theorem close_addAll (d : Draft) (steps : List Step) :
    d.1.length ≤ (d.addAll steps).1.length ∧
      (d.addAll steps).closeLoops ((d.addAll steps).1.length - d.1.length) = d.writeAll (nest steps) := by
  induction steps generalizing d with
  | nil => simp [addAll, closeLoops, nest, writeAll]
  | cons step rest ih =>
    cases step with
    | put s =>
      have h := ih (d.write s)
      rw [length_write] at h
      exact h
    | enter index extent =>
      obtain ⟨hle, hclose⟩ := ih (d.add (.enter index extent))
      have hlen : (d.add (.enter index extent)).1.length = d.1.length + 1 := rfl
      rw [hlen] at hle hclose
      have hdepth : ((d.add (.enter index extent)).addAll rest).1.length - d.1.length =
          ((d.add (.enter index extent)).addAll rest).1.length - (d.1.length + 1) + 1 := by omega
      refine ⟨Nat.le_of_succ_le hle, ?_⟩
      show ((d.add (.enter index extent)).addAll rest).closeLoops
        (((d.add (.enter index extent)).addAll rest).1.length - d.1.length) = _
      rw [hdepth, closeLoops_succ, hclose, add, writeAll_enter]
      rfl

end Draft

/-! ## Writers -/

namespace Writer

/-- The code written so far. -/
def draft (w : Writer) : Draft := (w.frames, w.done)

theorem draft_write (w : Writer) (s : Stmt) : (w.write s).draft = w.draft.write s := by
  cases w with
  | mk frames => cases frames <;> rfl

theorem draft_closeLoop (w : Writer) : w.closeLoop.draft = w.draft.close := by
  cases w with
  | mk frames =>
    cases frames with
    | nil => rfl
    | cons f fs => cases fs <;> rfl

theorem draft_closeLoops (w : Writer) (n : Nat) : (w.closeLoops n).draft = w.draft.closeLoops n := by
  induction n generalizing w with
  | zero => rfl
  | succ n ih => rw [closeLoops, ih, draft_closeLoop]; rfl

/-- Closing all loops that have been opened since leaves the statements that the steps amount to. -/
theorem draft_closeTo {w w' : Writer} {steps : List Step} (h : w'.draft = w.draft.addAll steps) :
    (w'.closeTo w.frames.length).draft = w.draft.writeAll (nest steps) := by
  obtain ⟨-, hclose⟩ := w.draft.close_addAll steps
  rw [closeTo, draft_closeLoops, h, ← hclose, ← h]
  rfl

/-- Adding a statement does not touch the rest of a writer. -/
theorem write_rest (w : Writer) (s : Stmt) :
    w.write s = { w with frames := (w.write s).frames, done := (w.write s).done } := by
  cases w with
  | mk frames => cases frames <;> rfl

/-- Closing loops does not touch the rest of a writer. -/
theorem closeTo_rest (w : Writer) (depth : Nat) :
    w.closeTo depth = { w with frames := (w.closeTo depth).frames, done := (w.closeTo depth).done } := by
  have hclose : ∀ w : Writer, w.closeLoop =
      { w with frames := w.closeLoop.frames, done := w.closeLoop.done } := by
    intro w
    cases w with
    | mk frames =>
      cases frames with
      | nil => rfl
      | cons f fs => exact write_rest _ _
  have hloops : ∀ (n : Nat) (w : Writer), w.closeLoops n =
      { w with frames := (w.closeLoops n).frames, done := (w.closeLoops n).done } := by
    intro n
    induction n with
    | zero => exact fun w => rfl
    | succ n ih =>
      intro w
      rw [closeLoops, ih, hclose]
  exact hloops _ w

theorem isOpen_write (w : Writer) (s : Stmt) (name : String) :
    (w.write s).isOpen name = w.isOpen name := by
  cases w with
  | mk frames => cases frames <;> rfl

theorem nextTemp_write (w : Writer) (s : Stmt) : (w.write s).nextTemp = w.nextTemp := by
  rw [write_rest]

theorem isOpen_openLoop (w : Writer) (index : String) (extent : Int) (name : String) :
    (w.openLoop index extent).isOpen name = (index == name || w.isOpen name) := rfl

/-- A writer that has gone on: loops have been opened and temporaries declared. -/
structure Grows (w w' : Writer) : Prop where
  flat : w'.flat = w.flat
  extents : ∀ name, w'.extentOf name = w.extentOf name
  opened : ∀ name, w.isOpen name = true → w'.isOpen name = true
  temps : w.nextTemp ≤ w'.nextTemp

theorem Grows.refl (w : Writer) : w.Grows w := ⟨rfl, fun _ => rfl, fun _ h => h, Nat.le_refl _⟩

theorem Grows.trans {w w₁ w₂ : Writer} (h : w.Grows w₁) (h' : w₁.Grows w₂) : w.Grows w₂ :=
  ⟨h'.flat.trans h.flat, fun name => (h'.extents name).trans (h.extents name),
    fun name ho => h'.opened name (h.opened name ho), Nat.le_trans h.temps h'.temps⟩

theorem grows_write (w : Writer) (s : Stmt) : w.Grows (w.write s) := by
  cases w with
  | mk frames => cases frames <;> exact ⟨rfl, fun _ => rfl, fun _ h => h, Nat.le_refl _⟩

/-- A loop is opened with the extent that its index has. -/
theorem grows_openLoop (w : Writer) (index : String) : w.Grows (w.openLoop index (w.extentOf index)) where
  flat := rfl
  extents name := by
    rw [extentOf, openLoop, List.lookup_cons]
    by_cases h : name = index
    · subst h
      simp [extentOf]
    · simp [extentOf, beq_eq_false_iff_ne.mpr h]
  opened name h := by rw [isOpen_openLoop, h, Bool.or_true]
  temps := Nat.le_refl _

/-- The loops that are open afterwards are those that were open and those of the indices. -/
theorem isOpen_ensure {w : Writer} (hflat : w.flat = none) {is : List Index} {name : String} :
    (w.ensure is).isOpen name = true ↔ w.isOpen name = true ∨ ∃ i ∈ is, i.loopName? = some name := by
  rw [ensure, if_neg (by simp [hflat])]
  clear hflat
  induction is generalizing w with
  | nil => simp
  | cons i is ih =>
    rw [List.foldl_cons, ih, List.exists_mem_cons_iff, ← or_assoc]
    refine or_congr_left ?_
    split
    · rename_i hi
      simp [hi]
    · rename_i other hi
      rw [hi, Option.some_inj]
      split
      · rename_i hopen
        exact ⟨.inl, fun h => h.elim id fun heq => heq ▸ hopen⟩
      · rw [isOpen_openLoop, Bool.or_eq_true, beq_iff_eq, or_comm]

end Writer

/-! ## Blocks -/

variable {α : Type}

/-- Names that are bound in a scope have the same values in an inner one. -/
structure Locals.Within (f f' : Locals α) : Prop where
  indices : ∀ name v, f.indices.lookup name = some v → f'.indices.lookup name = some v
  temps : ∀ n v, f.temps.lookup n = some v → f'.temps.lookup n = some v

theorem Locals.Within.refl (f : Locals α) : f.Within f := ⟨fun _ _ h => h, fun _ _ h => h⟩

theorem Locals.Within.trans {f f₁ f₂ : Locals α} (h : f.Within f₁) (h' : f₁.Within f₂) : f.Within f₂ :=
  ⟨fun name v hv => h'.indices name v (h.indices name v hv),
    fun n v hv => h'.temps n v (h.temps n v hv)⟩

variable [Scalar α]

section

variable (round : α → α) (f : Locals α) (A : Arrays α)

theorem Stmt.runAll_cons (s : Stmt) (ss : List Stmt) :
    Stmt.runAll round f A (s :: ss) =
      (s.run round f A).bind fun x => Stmt.runAll round x.1 x.2 ss :=
  rfl

theorem Stmt.run_loop (index : String) (extent : Int) (body : List Stmt) :
    (Stmt.loop index extent body).run round f A =
      (int? extent).bind fun extent =>
        (LoopNest.loop extent.toNat 0 (fun i A =>
          Stmt.runAll round { f with indices := (index, i) :: f.indices } A body) A).bind fun A =>
        some (f, A) :=
  rfl

theorem Stmt.run_declare (temp : Nat) (value : Expr) :
    (Stmt.declare temp value).run round f A =
      (value.eval f A).bind fun v => some ({ f with temps := (temp, round v) :: f.temps }, A) :=
  rfl

theorem Stmt.run_store (dst : Element) (value : Expr) :
    (Stmt.store dst value).run round f A =
      (value.eval f A).bind fun v => (dst.store f A (round v)).bind fun A => some (f, A) :=
  rfl

theorem Stmt.run_clear (dst : Element) :
    (Stmt.clear dst).run round f A = (dst.store f A 0).bind fun A => some (f, A) :=
  rfl

theorem Stmt.run_accumulate (dst : Element) (x y : Expr) :
    (Stmt.accumulate dst x y).run round f A =
      (x.eval f A).bind fun u => (y.eval f A).bind fun v => (dst.load f A).bind fun s =>
        (dst.store f A (round (s + u * v))).bind fun A => some (f, A) :=
  rfl

end

/-- Runs the statements of a block and keeps its scope, for the statements that follow. -/
def runBlock (f : Locals α) (A : Arrays α) : List Stmt → Option (Locals α × Arrays α)
  | [] => some (f, A)
  | s :: ss => do
    let (f, A) ← s.run id f A
    runBlock f A ss

theorem runBlock_cons (f : Locals α) (A : Arrays α) (s : Stmt) (ss : List Stmt) :
    runBlock f A (s :: ss) = (s.run id f A).bind fun x => runBlock x.1 x.2 ss :=
  rfl

theorem runAll_eq (f : Locals α) (A : Arrays α) (ss : List Stmt) :
    Stmt.runAll id f A ss = (runBlock f A ss).map (·.2) := by
  induction ss generalizing f A with
  | nil => rfl
  | cons s ss ih =>
    rw [Stmt.runAll_cons, runBlock_cons]
    cases s.run id f A with
    | none => rfl
    | some x => exact ih x.1 x.2

theorem runBlock_append (f : Locals α) (A : Arrays α) (ss ts : List Stmt) :
    runBlock f A (ss ++ ts) = (runBlock f A ss).bind fun x => runBlock x.1 x.2 ts := by
  induction ss generalizing f A with
  | nil => rfl
  | cons s ss ih =>
    rw [List.cons_append, runBlock_cons, runBlock_cons]
    cases s.run id f A with
    | none => rfl
    | some x => exact ih x.1 x.2

theorem runAll_loop {f : Locals α} {A A' : Arrays α} {index : String} {extent : Int} {body : List Stmt}
    (hint : int? extent = some extent) (h : loop extent.toNat 0 (fun i A =>
      Stmt.runAll id { f with indices := (index, i) :: f.indices } A body) A = some A') :
    Stmt.runAll id f A [.loop index extent body] = some A' := by
  simp only [Stmt.runAll_cons, Stmt.run_loop, hint, Option.bind_some, h]
  rfl

theorem runAll_store {f : Locals α} {A A' : Arrays α} {dst : Element} {e : Expr} {v : α}
    (hv : e.eval f A = some v) (h : dst.store f A v = some A') (rest : List Stmt) :
    Stmt.runAll id f A (.store dst e :: rest) = Stmt.runAll id f A' rest := by
  simp only [Stmt.runAll_cons, Stmt.run_store, hv, id_eq, Option.bind_some, h]

theorem runAll_clear {f : Locals α} {A A' : Arrays α} {dst : Element} (h : dst.store f A 0 = some A')
    (rest : List Stmt) : Stmt.runAll id f A (.clear dst :: rest) = Stmt.runAll id f A' rest := by
  simp only [Stmt.runAll_cons, Stmt.run_clear, h, Option.bind_some]

theorem runAll_accumulate {f : Locals α} {A A' : Arrays α} {dst : Element} {x y : Expr} {u v s : α}
    (hx : x.eval f A = some u) (hy : y.eval f A = some v) (hs : dst.load f A = some s)
    (h : dst.store f A (s + u * v) = some A') (rest : List Stmt) :
    Stmt.runAll id f A (.accumulate dst x y :: rest) = Stmt.runAll id f A' rest := by
  simp only [Stmt.runAll_cons, Stmt.run_accumulate, hx, hy, hs, id_eq, Option.bind_some, h]

/-- After a block, the scope has the same indices, and a temporary that was not declared in the block
is not there unless it was before. -/
theorem runBlock_scope {f f' : Locals α} {A A' : Arrays α} {ss : List Stmt}
    (h : runBlock f A ss = some (f', A')) : f'.indices = f.indices ∧
      ∀ n, f.temps.lookup n = none → (∀ v, .declare n v ∉ ss) → f'.temps.lookup n = none := by
  induction ss generalizing f A with
  | nil =>
    cases h
    exact ⟨rfl, fun _ hn _ => hn⟩
  | cons s ss ih =>
    obtain ⟨⟨f₁, A₁⟩, hs, hrest⟩ := Option.bind_eq_some_iff.mp h
    obtain ⟨hindices, htemps⟩ := ih hrest
    obtain ⟨hsame, hdeclared⟩ : f₁.indices = f.indices ∧ ∀ n, f.temps.lookup n = none →
        (∀ v, s ≠ .declare n v) → f₁.temps.lookup n = none := by
      cases s with
      | declare m e =>
        obtain ⟨v, -, hv⟩ := Option.bind_eq_some_iff.mp hs
        cases hv
        refine ⟨rfl, fun n hn hne => ?_⟩
        have hnm : n ≠ m := fun heq => hne e (heq ▸ rfl)
        rwa [List.lookup_cons, beq_eq_false_iff_ne.mpr hnm]
      | loop index extent body =>
        obtain ⟨_, -, hv⟩ := Option.bind_eq_some_iff.mp hs
        obtain ⟨_, -, hv⟩ := Option.bind_eq_some_iff.mp hv
        cases hv
        exact ⟨rfl, fun _ hn _ => hn⟩
      | store dst e =>
        obtain ⟨_, -, hv⟩ := Option.bind_eq_some_iff.mp hs
        obtain ⟨_, -, hv⟩ := Option.bind_eq_some_iff.mp hv
        cases hv
        exact ⟨rfl, fun _ hn _ => hn⟩
      | clear dst =>
        obtain ⟨_, -, hv⟩ := Option.bind_eq_some_iff.mp hs
        cases hv
        exact ⟨rfl, fun _ hn _ => hn⟩
      | accumulate dst x y =>
        obtain ⟨_, -, hv⟩ := Option.bind_eq_some_iff.mp hs
        obtain ⟨_, -, hv⟩ := Option.bind_eq_some_iff.mp hv
        obtain ⟨_, -, hv⟩ := Option.bind_eq_some_iff.mp hv
        obtain ⟨_, -, hv⟩ := Option.bind_eq_some_iff.mp hv
        cases hv
        exact ⟨rfl, fun _ hn _ => hn⟩
    refine ⟨hindices.trans hsame, fun n hn hnot => htemps n (hdeclared n hn fun v heq => ?_) fun v hv => ?_⟩
    · exact hnot v (heq ▸ .head _)
    · exact hnot v (List.mem_cons_of_mem _ hv)

/-! ## Scenes -/

/-- The values of the open indices. -/
abbrev Env := List (String × Int)

/-- The points that are left in a scope of open loops. The scope of an inner loop is for fewer
points. -/
structure Region where
  At : Env → List Int → Prop
  narrow : ∀ {env env' : Env} {pt : List Int},
    (∀ name v, env.lookup name = some v → env'.lookup name = some v) → At env' pt → At env pt

/-- What code is about: the points that it still has to deal with, what holds of the arrays before it,
for the cells that the assignment started from, and what it changes. -/
structure Scene (α : Type) extends Region where
  Inv : Cells α → Env → Arrays α → Prop
  Post : Cells α → Env → Arrays α → Arrays α → Prop

namespace Scene

variable (sc : Scene α)

/-- Steps do in a scope what is asked for. -/
def Completes (σ : Cells α) (steps : List Step) (f : Locals α) : Prop :=
  ∀ A, sc.Inv σ f.indices A →
    ∃ A', Stmt.runAll id f A (nest steps) = some A' ∧ sc.Post σ f.indices A A'

/-- The scope of the code that comes next. -/
structure Scope (w : Writer) (f : Locals α) : Prop where
  bound : ∀ name, w.isOpen name = true ↔ (f.indices.lookup name).isSome = true
  fresh : ∀ n, w.nextTemp ≤ n → f.temps.lookup n = none
  point : ∃ pt, sc.At f.indices pt

/-- In a scope, and in all inner ones, an expression has the given value at every point. -/
def Values (σ : Cells α) (e : Expr) (val : List Int → Option α) (f : Locals α) : Prop :=
  ∀ f' A pt, f.Within f' → sc.Inv σ f'.indices A → sc.At f'.indices pt →
    ∃ v, e.eval f' A = some v ∧ val pt = some v

theorem Values.within {σ : Cells α} {e : Expr} {val : List Int → Option α} {f f' : Locals α}
    (h : sc.Values σ e val f) (hf : f.Within f') : sc.Values σ e val f' :=
  fun f'' A pt hwithin => h f'' A pt (hf.trans hwithin)

/-- From one writer to the other, steps are written, and these reach a property of scopes: what is
completed wherever the property holds is completed from the start. -/
structure Emits (w w' : Writer) (Q : Cells α → Locals α → Prop) : Prop where
  grows : w.Grows w'
  steps : ∃ steps, w'.draft = w.draft.addAll steps ∧
    (∀ n v, .put (.declare n v) ∈ steps → n < w'.nextTemp) ∧
    ∀ σ f rest, sc.Scope w f →
      (∀ f', f.Within f' → sc.Scope w' f' → Q σ f' → sc.Completes σ rest f') →
      sc.Completes σ (steps ++ rest) f

variable {sc} {w w₁ w₂ : Writer} {Q Q₁ Q₂ : Cells α → Locals α → Prop}

theorem Emits.refl (h : ∀ σ f, sc.Scope w f → Q σ f) : sc.Emits w w Q where
  grows := .refl w
  steps := ⟨[], rfl, fun _ _ h => absurd h List.not_mem_nil, fun σ f _ hf hrest =>
    hrest f (.refl f) hf (h σ f hf)⟩

theorem Emits.mono (h : sc.Emits w w₁ Q₁) (hQ : ∀ σ f, sc.Scope w₁ f → Q₁ σ f → Q₂ σ f) :
    sc.Emits w w₁ Q₂ := by
  obtain ⟨steps, hdraft, htemps, hsteps⟩ := h.steps
  exact ⟨h.grows, steps, hdraft, htemps, fun σ f rest hf hrest =>
    hsteps σ f rest hf fun f' hwithin hf' hQ' => hrest f' hwithin hf' (hQ σ f' hf' hQ')⟩

/-- One piece of code after the other. -/
theorem Emits.trans (h : sc.Emits w w₁ Q₁) (h' : sc.Emits w₁ w₂ Q₂)
    (hQ : ∀ σ f f', f.Within f' → Q₁ σ f → Q₁ σ f') : sc.Emits w w₂ fun σ f => Q₁ σ f ∧ Q₂ σ f := by
  obtain ⟨steps, hdraft, htemps, hsteps⟩ := h.steps
  obtain ⟨steps', hdraft', htemps', hsteps'⟩ := h'.steps
  refine ⟨h.grows.trans h'.grows, steps ++ steps', ?_, fun n v hmem => ?_, fun σ f rest hf hrest => ?_⟩
  · rw [hdraft', hdraft, Draft.addAll_append]
  · rcases List.mem_append.mp hmem with hmem | hmem
    · exact Nat.lt_of_lt_of_le (htemps n v hmem) h'.grows.temps
    · exact htemps' n v hmem
  · rw [List.append_assoc]
    refine hsteps σ f _ hf fun f₁ hwithin₁ hf₁ hQ₁ => hsteps' σ f₁ rest hf₁ fun f₂ hwithin₂ hf₂ hQ₂ => ?_
    exact hrest f₂ (hwithin₁.trans hwithin₂) hf₂ ⟨hQ σ f₁ f₂ hwithin₂ hQ₁, hQ₂⟩

/-! ## Temporaries -/

variable {σ : Cells α} {e : Expr} {val : List Int → Option α}

/-- A temporary takes the value that an expression has in its scope. -/
theorem Completes.declare {f : Locals α} {n : Nat} {rest : List Step}
    (hpoint : ∃ pt, sc.At f.indices pt) (he : sc.Values σ e val f)
    (hrest : ∀ v, sc.Values σ (.temp n) val { f with temps := (n, v) :: f.temps } →
      sc.Completes σ rest { f with temps := (n, v) :: f.temps }) :
    sc.Completes σ (.put (.declare n e) :: rest) f := by
  intro A hA
  obtain ⟨pt, hpt⟩ := hpoint
  obtain ⟨v, hv, -⟩ := he f A pt (.refl f) hA hpt
  have htemp : sc.Values σ (.temp n) val { f with temps := (n, v) :: f.temps } := by
    intro f' A' pt' hwithin _ hpt'
    refine ⟨v, hwithin.temps n v (by simp), ?_⟩
    obtain ⟨v', hv', hval⟩ := he f A pt' (.refl f) hA (sc.narrow hwithin.indices hpt')
    rw [hv] at hv'
    cases hv'
    exact hval
  obtain ⟨A', hrun, hpost⟩ := hrest v htemp A hA
  refine ⟨A', ?_, hpost⟩
  rw [nest, Stmt.runAll_cons, Stmt.run_declare, hv]
  exact hrun

theorem Emits.declare (val : Cells α → List Int → Option α)
    (h : sc.Emits w w₁ fun σ => sc.Values σ e (val σ)) :
    sc.Emits w ({ w₁ with nextTemp := w₁.nextTemp + 1 }.write (.declare w₁.nextTemp e))
      fun σ => sc.Values σ (.temp w₁.nextTemp) (val σ) := by
  have hnext : ({ w₁ with nextTemp := w₁.nextTemp + 1 }.write (.declare w₁.nextTemp e)).nextTemp =
      w₁.nextTemp + 1 := by
    cases w₁ with
    | mk frames => cases frames <;> rfl
  have hopen : ∀ name, ({ w₁ with nextTemp := w₁.nextTemp + 1 }.write (.declare w₁.nextTemp e)).isOpen
      name = w₁.isOpen name := fun name => Writer.isOpen_write _ _ name
  obtain ⟨steps, hdraft, htemps, hsteps⟩ := h.steps
  refine ⟨h.grows.trans ?_, steps ++ [.put (.declare w₁.nextTemp e)], ?_, fun n v hmem => ?_,
    fun σ f rest hf hrest => ?_⟩
  · have hgrows := Writer.grows_write { w₁ with nextTemp := w₁.nextTemp + 1 } (.declare w₁.nextTemp e)
    exact ⟨hgrows.flat, hgrows.extents, hgrows.opened, by rw [hnext]; exact Nat.le_succ _⟩
  · rw [Writer.draft_write, Draft.addAll_append]
    exact congrArg (Draft.write · (.declare w₁.nextTemp e)) hdraft
  · rw [hnext]
    rcases List.mem_append.mp hmem with hmem | hmem
    · exact Nat.lt_succ_of_lt (htemps n v hmem)
    · cases List.mem_singleton.mp hmem
      exact Nat.lt_succ_self _
  · rw [List.append_assoc]
    refine hsteps σ f _ hf fun f₁ hwithin₁ hf₁ he => ?_
    refine Completes.declare hf₁.point he fun v htemp => ?_
    refine hrest _ (hwithin₁.trans ⟨fun _ _ h => h, fun n u hn => ?_⟩) ⟨fun name => ?_, fun n hn => ?_,
      hf₁.point⟩ htemp
    · have hne : n ≠ w₁.nextTemp := by
        rintro rfl
        rw [hf₁.fresh _ (Nat.le_refl _)] at hn
        cases hn
      rwa [List.lookup_cons, beq_eq_false_iff_ne.mpr hne]
    · rw [hopen]
      exact hf₁.bound name
    · rw [hnext] at hn
      have hne : n ≠ w₁.nextTemp := by omega
      rw [List.lookup_cons, beq_eq_false_iff_ne.mpr hne]
      exact hf₁.fresh n (by omega)

/-! ## Loops -/

variable (sc) in
/-- The loop of an index divides the points of a scope: in the scope of each of its values there are
some, and completing the code at all values of the index completes the loop. -/
def Divides (name : String) (extent : Int) : Prop :=
  ∀ f : Locals α, f.indices.lookup name = none → (∃ pt, sc.At f.indices pt) →
    (∀ j, 0 ≤ j → j < extent → ∃ pt, sc.At ((name, j) :: f.indices) pt) ∧
    ∀ σ rest, (∀ j, 0 ≤ j → j < extent →
      sc.Completes σ rest { f with indices := (name, j) :: f.indices }) →
      sc.Completes σ (.enter name extent :: rest) f

theorem Emits.enter {name : String} (h : sc.Divides name (w.extentOf name))
    (hclosed : w.isOpen name = false) : sc.Emits w (w.openLoop name (w.extentOf name)) fun _ f =>
      (f.indices.lookup name).isSome = true := by
  refine ⟨w.grows_openLoop name, [.enter name (w.extentOf name)], rfl, fun n v hmem => ?_,
    fun σ f rest hf hrest => ?_⟩
  · cases List.mem_singleton.mp hmem
  have hnone : f.indices.lookup name = none := by
    refine Option.not_isSome_iff_eq_none.mp fun hbound => ?_
    rw [← hf.bound name, hclosed] at hbound
    cases hbound
  obtain ⟨hpoint, hcomplete⟩ := h f hnone hf.point
  refine hcomplete σ rest fun j lo hi => hrest _ ⟨fun name' v hv => ?_, fun _ _ h => h⟩
    ⟨fun name' => ?_, hf.fresh, hpoint j lo hi⟩ (by simp)
  · have hne : name' ≠ name := by
      rintro rfl
      rw [hnone] at hv
      cases hv
    rwa [List.lookup_cons, beq_eq_false_iff_ne.mpr hne]
  · rw [Writer.isOpen_openLoop, List.lookup_cons]
    by_cases hne : name' = name
    · subst hne
      simp
    · rw [beq_eq_false_iff_ne.mpr hne, beq_eq_false_iff_ne.mpr (Ne.symm hne), Bool.false_or]
      exact hf.bound name'

/-- The loops of indices are open or divide the points of a scope. -/
theorem Emits.ensure (hflat : w.flat = none) {is : List Index} (his : ∀ i ∈ is, ∀ name,
      i.loopName? = some name → w.isOpen name = true ∨ sc.Divides name (w.extentOf name)) :
    sc.Emits w (w.ensure is) fun _ f => ∀ i ∈ is, ∀ name, i.loopName? = some name →
      (f.indices.lookup name).isSome = true := by
  rw [Writer.ensure, if_neg (by simp [hflat])]
  clear hflat
  induction is generalizing w with
  | nil => exact .refl fun _ _ _ _ h => absurd h List.not_mem_nil
  | cons i is ih =>
    rw [List.foldl_cons]
    have hrest : ∀ {w₁ : Writer}, w.Grows w₁ → ∀ i ∈ is, ∀ name, i.loopName? = some name →
        w₁.isOpen name = true ∨ sc.Divides name (w₁.extentOf name) := by
      intro w₁ hgrows i hi name hname
      rw [hgrows.extents]
      exact (his i (List.mem_cons_of_mem _ hi) name hname).imp_left (hgrows.opened name)
    cases hname : i.loopName? with
    | none =>
      refine (ih (hrest (.refl w))).mono fun σ f _ h j hj name hj' => ?_
      rcases List.mem_cons.mp hj with rfl | hj
      · rw [hname] at hj'
        cases hj'
      · exact h j hj name hj'
    | some name =>
      dsimp only
      by_cases hopen : w.isOpen name = true
      · rw [if_pos hopen]
        have hgrown := (ih (hrest (.refl w))).grows
        refine (ih (hrest (.refl w))).mono fun σ f hf h j hj name' hj' => ?_
        rcases List.mem_cons.mp hj with rfl | hj
        · rw [hname] at hj'
          cases hj'
          exact (hf.bound name).mp (hgrown.opened name hopen)
        · exact h j hj name' hj'
      · rw [if_neg hopen]
        have hdiv := (his i (.head _) name hname).resolve_left hopen
        have henter := Emits.enter hdiv (by simpa using hopen)
        refine (henter.trans (ih (hrest henter.grows)) fun σ f f' hwithin h => ?_).mono
          fun σ f hf h j hj name' hj' => ?_
        · obtain ⟨v, hv⟩ := Option.isSome_iff_exists.mp h
          exact Option.isSome_iff_exists.mpr ⟨v, hwithin.indices name v hv⟩
        · rcases List.mem_cons.mp hj with rfl | hj
          · rw [hname] at hj'
            cases hj'
            exact h.1
          · exact h.2 j hj name' hj'

/-! ## Finished code -/

variable (sc) in
/-- From one writer to the other, code is written that does in every scope what is asked for. -/
def Writes (w w' : Writer) : Prop :=
  w.nextTemp ≤ w'.nextTemp ∧ ∃ steps, w'.draft = w.draft.addAll steps ∧
    (∀ n v, .put (.declare n v) ∈ steps → n < w'.nextTemp) ∧
    ∀ σ f, sc.Scope w f → sc.Completes σ steps f

/-- The last steps complete the code. -/
theorem Emits.writes (h : sc.Emits w w₁ Q) {l : List Step} (hdraft : w₂.draft = w₁.draft.addAll l)
    (hle : w₁.nextTemp ≤ w₂.nextTemp) (htemps : ∀ n v, .put (.declare n v) ∈ l → n < w₂.nextTemp)
    (hlast : ∀ σ f, sc.Scope w₁ f → Q σ f → sc.Completes σ l f) : sc.Writes w w₂ := by
  obtain ⟨steps, hdraft₁, htemps₁, hsteps⟩ := h.steps
  refine ⟨Nat.le_trans h.grows.temps hle, steps ++ l, ?_, fun n v hmem => ?_, fun σ f hf =>
    hsteps σ f l hf fun f' _ hf' hQ => hlast σ f' hf' hQ⟩
  · rw [hdraft, hdraft₁, Draft.addAll_append]
  · rcases List.mem_append.mp hmem with hmem | hmem
    · exact Nat.lt_of_lt_of_le (htemps₁ n v hmem) hle
    · exact htemps n v hmem

end Scene

end LoopNest.C
