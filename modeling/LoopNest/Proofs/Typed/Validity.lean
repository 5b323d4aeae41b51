import LoopNest.Typed.Validate
import LoopNest.Proofs.Clause

/-!
# Valid programs

What validation establishes, as relations between expressions and shapes. `Expr.Shaped` gives the
shape rules: every read is of a declared tensor that is an input or was assigned before, and the
shapes of all parts belong to a class. `Program.Valid.checked` inverts the validation of a program.
-/

namespace LoopNest

theorem bind_eq_ok {ε β γ : Type _} {x : Except ε β} {f : β → Except ε γ} {c : γ} :
    x >>= f = .ok c ↔ ∃ b, x = .ok b ∧ f b = .ok c := by
  cases x with
  | error e => simp [bind, Except.bind]
  | ok b => simp [bind, Except.bind]

/-- A check that throws was passed. -/
theorem check_eq_ok {ε β : Type _} {c : Prop} [Decidable c] {e : ε} {k : Except ε β} {b : β} :
    (if c then (do throw e; k) else k) = .ok b ↔ ¬ c ∧ k = .ok b := by
  split <;> simp_all [bind, Except.bind, throw, throwThe, MonadExceptOf.throw]

namespace Typed

namespace Expr

/-- Induction over expressions, with the hypothesis for all members of a stack. -/
@[elab_as_elim] theorem inductionOn {motive : Expr → Prop} (missing : motive .missing)
    (ident : ∀ name dims, motive (.ident name dims)) (const : ∀ v, motive (.const v))
    (binary : ∀ op x y, motive x → motive y → motive (.binary op x y))
    (scale : ∀ op c x, motive c → motive x → motive (.scale op c x))
    (product : ∀ x y, motive x → motive y → motive (.product x y))
    (contract : ∀ x xs y ys, motive x → motive y → motive (.contract x xs y ys))
    (stack : ∀ ms, (∀ e ∈ ms, motive e) → motive (.stack ms))
    (transpose : ∀ x pairs, motive x → motive (.transpose x pairs))
    (shared : ∀ label e, motive e → motive (.shared label e)) (e : Expr) : motive e :=
  @Expr.rec motive (fun es => ∀ e ∈ es, motive e) missing ident const binary scale product contract
    stack transpose shared (by simp) (fun e es he hes => by simpa using ⟨he, hes⟩) e

mutual
/-- An expression and all the expressions that it consists of. -/
def parts : Expr → List Expr
  | .missing => [.missing]
  | .ident name dims => [.ident name dims]
  | .const v => [.const v]
  | .binary op x y => .binary op x y :: (x.parts ++ y.parts)
  | .scale op c x => .scale op c x :: (c.parts ++ x.parts)
  | .product x y => .product x y :: (x.parts ++ y.parts)
  | .contract x xs y ys => .contract x xs y ys :: (x.parts ++ y.parts)
  | .stack ms => .stack ms :: partsAll ms
  | .transpose x pairs => .transpose x pairs :: x.parts
  | .shared label e => .shared label e :: e.parts

/-- All the expressions that several expressions consist of. -/
def partsAll : List Expr → List Expr
  | [] => []
  | e :: es => e.parts ++ partsAll es
end

theorem partsAll_eq (es : List Expr) : partsAll es = es.flatMap parts := by
  induction es with
  | nil => rfl
  | cons e es ih => rw [partsAll, ih, List.flatMap_cons]

/-- The shape rules, with the shapes of all parts in a class. -/
inductive Shaped (K : ShapeClass) (s : Scope) : Expr → Shape → Prop
  | ident {d : Symbol} {name : String} : s.find? name = some d →
    (d.role.isInput ∨ name ∈ s.written) → K.Mem d.shape → Shaped K s (.ident name d.shape) d.shape
  | const {v : Float} : K.Mem [] → Shaped K s (.const v) []
  | binary {op : NodeKind} {x y : Expr} {sh : Shape} : op.isElementwise → Shaped K s x sh →
    Shaped K s y sh → Shaped K s (.binary op x y) sh
  | scale {op : NodeKind} {c x : Expr} {sh : Shape} : op.isScalar → Shaped K s c [] →
    Shaped K s x sh → Shaped K s (.scale op c x) sh
  | product {x y : Expr} {xs ys : Shape} : Shaped K s x xs → Shaped K s y ys →
    K.Mem (xs ++ ys) → Shaped K s (.product x y) (xs ++ ys)
  | contract {x y : Expr} {xs ys : Shape} {ls rs es : List Int} : Shaped K s x xs →
    Shaped K s y ys → ls.mapM (at? xs) = some es → rs.mapM (at? ys) = some es →
    K.Mem (xs.remove ls ++ ys.remove rs) →
    Shaped K s (.contract x ls y rs) (xs.remove ls ++ ys.remove rs)
  | stack {m : Expr} {ms : List Expr} {sh : Shape} : (∀ e ∈ m :: ms, Shaped K s e sh) →
    K.Mem (((ms.length + 1 : Nat) : Int) :: sh) →
    Shaped K s (.stack (m :: ms)) (((ms.length + 1 : Nat) : Int) :: sh)
  | transpose {x : Expr} {xs sh : Shape} {pairs : List Swap} : Shaped K s x xs →
    forward pairs xs = some sh → Shaped K s (.transpose x pairs) sh
  | shared {label : Nat} {e : Expr} {sh : Shape} : Shaped K s e sh → Shaped K s (.shared label e) sh

variable {K : ShapeClass} {s : Scope}

theorem Shaped.mem {e : Expr} {sh : Shape} (h : e.Shaped K s sh) : K.Mem sh := by
  induction h with
  | ident _ _ h | const h | product _ _ h | contract _ _ _ _ h | stack _ h => exact h
  | binary _ _ _ ih | scale _ _ _ _ ih | shared _ ih => exact ih
  | transpose _ hfwd ih => exact K.perm ih (perm_forward hfwd)

/-- The shape rules determine the shape that an expression says to have. -/
theorem Shaped.shape_eq {e : Expr} {sh : Shape} (h : e.Shaped K s sh) : e.shape = some sh := by
  induction h with
  | ident | const => rfl
  | binary _ _ _ ih | scale _ _ _ _ ih | shared _ ih => exact ih
  | product _ _ _ ihx ihy => simp [shape, ihx, ihy]
  | contract _ _ _ _ _ ihx ihy => simp [shape, ihx, ihy]
  | stack _ _ ih => simp [shape, ih _ (.head _)]
  | transpose _ hfwd ih =>
    rw [shape, ih]
    exact hfwd

end Expr

/-! ## What validation checks -/

section
variable {K : ShapeClass} {s : Scope} {e : Expr}

theorem checkAxes_ok {side : String} {rank : Nat} {before axes : List Int}
    (h : checkAxes e side rank before axes = .ok ()) : ∀ ax ∈ axes, 0 ≤ ax ∧ ax < rank := by
  induction axes generalizing before with
  | nil => simp
  | cons ax axes ih =>
    rw [checkAxes] at h
    split at h
    · cases h
    · split at h
      · cases h
      · intro a ha
        rcases List.mem_cons.mp ha with rfl | ha
        · omega
        · exact ih h a ha

theorem checkLengths_ok {xs ys : Shape} {ls rs : List Int} (hlen : ls.length = rs.length)
    (hl : ∀ ax ∈ ls, 0 ≤ ax ∧ ax < xs.length) (hr : ∀ ax ∈ rs, 0 ≤ ax ∧ ax < ys.length)
    (h : checkLengths e xs ys ls rs = .ok ()) :
    ∃ es, ls.mapM (at? xs) = some es ∧ rs.mapM (at? ys) = some es := by
  induction ls generalizing rs with
  | nil =>
    cases rs with
    | nil => exact ⟨[], rfl, rfl⟩
    | cons => cases hlen
  | cons l ls ih =>
    cases rs with
    | nil => cases hlen
    | cons r rs =>
      obtain ⟨dx, hx⟩ := at?_eq_getElem (hl l (.head _)).1 (hl l (.head _)).2
      obtain ⟨dy, hy⟩ := at?_eq_getElem (hr r (.head _)).1 (hr r (.head _)).2
      rw [checkLengths, hx, hy] at h
      simp only [Option.getD_some] at h
      split at h
      · rename_i heq
        obtain ⟨es, h₁, h₂⟩ := ih (by simpa using hlen) (fun a ha => hl a (List.mem_cons_of_mem _ ha))
          (fun a ha => hr a (List.mem_cons_of_mem _ ha)) h
        exact ⟨_, by rw [List.mapM_cons, hx, h₁]; rfl, by rw [List.mapM_cons, hy, h₂, ← heq]; rfl⟩
      · cases h

theorem contractedShape_ok {xs ys sh : Shape} {ls rs : List Int}
    (h : contractedShape e xs ls ys rs = .ok sh) :
    sh = xs.remove ls ++ ys.remove rs ∧
      ∃ es, ls.mapM (at? xs) = some es ∧ rs.mapM (at? ys) = some es := by
  simp only [contractedShape, check_eq_ok, bind_eq_ok] at h
  obtain ⟨hlen, ⟨⟩, hl, ⟨⟩, hr, ⟨⟩, hlens, hsh⟩ := h
  cases hsh
  exact ⟨rfl, checkLengths_ok (by simpa using hlen) (checkAxes_ok hl) (checkAxes_ok hr) hlens⟩

theorem members_ok {first : Shape} {i : Nat} {ms : List Expr} (h : s.members e first i ms = .ok ()) :
    ∀ m ∈ ms, s.expr m = .ok first := by
  induction ms generalizing i with
  | nil => simp
  | cons m ms ih =>
    simp only [Scope.members, check_eq_ok, bind_eq_ok] at h
    obtain ⟨sh, hm, hsh, hms⟩ := h
    intro a ha
    rcases List.mem_cons.mp ha with rfl | ha
    · rw [hm, Classical.not_not.mp hsh]
    · exact ih hms a ha

theorem pos_remove {xs : Shape} (h : ∀ d ∈ xs, 0 < d) (axes : List Int) :
    ∀ d ∈ xs.remove axes, 0 < d := by
  have hsub : ∀ (i : Nat) (xs : Shape), (Shape.removeFrom axes i xs).Sublist xs := by
    intro i xs
    induction xs generalizing i with
    | nil => exact .slnil
    | cons d xs ih =>
      rw [Shape.removeFrom]
      split
      · exact (ih _).cons _
      · exact (ih _).cons_cons _
  exact fun d hd => h d ((hsub 0 xs).subset hd)

theorem Scope.ident_ok {name : String} {dims sh : Shape} (h : s.ident name dims = .ok sh) :
    ∃ d, s.find? name = some d ∧ (d.role.isInput ∨ name ∈ s.written) ∧ dims = d.shape ∧ sh = d.shape := by
  rw [Scope.ident] at h
  cases hd : s.find? name with
  | none => simp [hd] at h
  | some d =>
    simp only [hd] at h
    split at h
    · cases h
    · rename_i hread
      split at h
      · cases h
      · rename_i hdims
        cases h
        refine ⟨d, rfl, ?_, Classical.not_not.mp hdims, rfl⟩
        simpa [Classical.or_iff_not_imp_left] using hread

theorem Scope.stack_ok {ms : List Expr} {sh : Shape} (h : s.expr (.stack ms) = .ok sh) :
    ∃ m ms' first, ms = m :: ms' ∧ (∀ e ∈ ms, s.expr e = .ok first) ∧
      sh = ((ms'.length + 1 : Nat) : Int) :: first := by
  cases ms with
  | nil => simp [Scope.expr] at h
  | cons m ms =>
    simp only [Scope.expr, bind_eq_ok] at h
    obtain ⟨first, hm, ⟨⟩, hms, heq⟩ := h
    cases heq
    exact ⟨m, ms, first, rfl, List.forall_mem_cons.mpr ⟨hm, members_ok hms⟩, rfl⟩

theorem Scope.transpose_ok {x : Expr} {pairs : List Swap} {sh : Shape}
    (h : s.expr (.transpose x pairs) = .ok sh) :
    ∃ xs, s.expr x = .ok xs ∧ forward pairs xs = some sh := by
  simp only [Scope.expr, bind_eq_ok] at h
  obtain ⟨xs, hx, h⟩ := h
  split at h
  · simp [throw, throwThe, MonadExceptOf.throw] at h
  · rename_i hnone
    have hin : firstOutside? pairs xs.rank = none := by
      cases hf : firstOutside? pairs xs.rank with
      | none => rfl
      | some p => exact absurd hf (hnone p)
    obtain ⟨sh', hfwd⟩ := exists_forward (firstOutside?_eq_none_iff.mp hin)
    rw [Shape.permute, hfwd] at h
    cases h
    exact ⟨xs, hx, hfwd⟩

/-- An expression that passes validation obeys the shape rules. -/
theorem Scope.expr_shaped {sh : Shape} (hdecls : ∀ d ∈ s.decls, ∀ n ∈ d.shape, 0 < n)
    (hK : ∀ part ∈ e.parts, ∀ sh, part.shape = some sh → (∀ d ∈ sh, 0 < d) → K.Mem sh)
    (h : s.expr e = .ok sh) : e.Shaped K s sh := by
  induction e using Expr.inductionOn generalizing sh with
  | missing => simp [Scope.expr] at h
  | ident name dims =>
    obtain ⟨d, hd, hread, rfl, rfl⟩ := Scope.ident_ok h
    exact .ident hd hread (hK _ (.head _) _ rfl (hdecls d (List.mem_of_find?_eq_some hd)))
  | const v =>
    cases h
    exact .const (hK _ (.head _) _ rfl (by simp))
  | binary op x y ihx ihy =>
    simp only [Scope.expr, check_eq_ok, bind_eq_ok] at h
    obtain ⟨hop, xs, hx, ys, hy, hsh, heq⟩ := h
    cases heq
    obtain rfl := Classical.not_not.mp hsh
    refine .binary (by simpa using hop) (ihx (fun e he => hK e ?_) hx) (ihy (fun e he => hK e ?_) hy)
    all_goals simp [Expr.parts, he]
  | scale op c x ihc ihx =>
    simp only [Scope.expr, check_eq_ok, bind_eq_ok] at h
    obtain ⟨hop, cs, hc, xs, hx, hsh, heq⟩ := h
    cases heq
    obtain rfl : cs = [] := by simpa using hsh
    refine .scale (by simpa using hop) (ihc (fun e he => hK e ?_) hc) (ihx (fun e he => hK e ?_) hx)
    all_goals simp [Expr.parts, he]
  | product x y ihx ihy =>
    simp only [Scope.expr, bind_eq_ok] at h
    obtain ⟨xs, hx, ys, hy, heq⟩ := h
    cases heq
    have hx' := ihx (fun e he => hK e (by simp [Expr.parts, he])) hx
    have hy' := ihy (fun e he => hK e (by simp [Expr.parts, he])) hy
    refine .product hx' hy' (hK _ (.head _) _ (by simp [Expr.shape, hx'.shape_eq, hy'.shape_eq]) ?_)
    intro d hd
    exact (List.mem_append.mp hd).elim (K.pos hx'.mem d) (K.pos hy'.mem d)
  | contract x ls y rs ihx ihy =>
    simp only [Scope.expr, bind_eq_ok] at h
    obtain ⟨xs, hx, ys, hy, hcon⟩ := h
    obtain ⟨rfl, es, hl, hr⟩ := contractedShape_ok hcon
    have hx' := ihx (fun e he => hK e (by simp [Expr.parts, he])) hx
    have hy' := ihy (fun e he => hK e (by simp [Expr.parts, he])) hy
    refine .contract hx' hy' hl hr
      (hK _ (.head _) _ (by simp [Expr.shape, hx'.shape_eq, hy'.shape_eq]) fun d hd => ?_)
    exact (List.mem_append.mp hd).elim (pos_remove (K.pos hx'.mem) ls d)
      (pos_remove (K.pos hy'.mem) rs d)
  | stack ms ih =>
    obtain ⟨m, ms, first, rfl, hms, rfl⟩ := Scope.stack_ok h
    have hall : ∀ e ∈ m :: ms, e.Shaped K s first := by
      intro e he
      refine ih e he (fun part hpart => hK part ?_) (hms e he)
      rw [Expr.parts, Expr.partsAll_eq]
      exact List.mem_cons_of_mem _ (List.mem_flatMap.mpr ⟨e, he, hpart⟩)
    refine .stack hall (hK _ (.head _) _ (by simp [Expr.shape, (hall m (.head _)).shape_eq]) ?_)
    intro d hd
    rcases List.mem_cons.mp hd with rfl | hd
    · omega
    · exact K.pos (hall m (.head _)).mem d hd
  | transpose x pairs ih =>
    obtain ⟨xs, hx, hfwd⟩ := Scope.transpose_ok h
    exact .transpose (ih (fun e he => hK e (by simp [Expr.parts, he])) hx) hfwd
  | shared label e ih =>
    exact .shared (ih (fun part hpart => hK part (List.mem_cons_of_mem _ hpart)) h)

/-- A statement assigns an expression to a declared tensor that is not an input, through swaps of
the axes of the tensor. -/
def Scope.Assigns (K : ShapeClass) (s : Scope) (st : Stmt) : Prop :=
  ∃ d sh, s.find? st.dst = some d ∧ d.role ≠ .input ∧ forward st.perm d.shape = some sh ∧
    st.expr.Shaped K s sh

/-- Statements obey the rules, each after those before it. -/
def Scope.Runs (K : ShapeClass) : Scope → List Stmt → Prop
  | _, [] => True
  | s, st :: rest => s.Assigns K st ∧ Scope.Runs K { s with written := st.dst :: s.written } rest

theorem Scope.stmt_ok {st : Stmt} (h : s.stmt st = .ok ()) :
    ∃ d sh, s.find? st.dst = some d ∧ d.role ≠ .input ∧ forward st.perm d.shape = some sh ∧
      s.expr st.expr = .ok sh := by
  unfold Scope.stmt at h
  cases hd : s.find? st.dst with
  | none => simp [hd, throw, throwThe, MonadExceptOf.throw] at h
  | some d =>
    simp only [hd, check_eq_ok] at h
    obtain ⟨hrole, h⟩ := h
    split at h
    · simp [throw, throwThe, MonadExceptOf.throw, bind, Except.bind] at h
    · split at h
      · simp [throw, throwThe, MonadExceptOf.throw, bind, Except.bind] at h
      · rename_i hnone
        obtain ⟨got, hgot, hshape⟩ := bind_eq_ok.1 h
        have hin : firstOutside? st.perm d.shape.rank = none := by
          cases hf : firstOutside? st.perm d.shape.rank with
          | none => rfl
          | some p => exact absurd hf (hnone p)
        obtain ⟨sh, hfwd⟩ := exists_forward (firstOutside?_eq_none_iff.mp hin)
        rw [Shape.permute, hfwd, Option.getD_some] at hshape
        split at hshape
        · cases hshape
        · rename_i heq
          exact ⟨d, sh, rfl, hrole, hfwd, Classical.not_not.mp heq ▸ hgot⟩

theorem checkStmts_ok {i : Nat} {stmts : List Stmt} {s : Scope}
    (hdecls : ∀ d ∈ s.decls, ∀ n ∈ d.shape, 0 < n)
    (hK : ∀ st ∈ stmts, ∀ part ∈ st.expr.parts, ∀ sh, part.shape = some sh → (∀ d ∈ sh, 0 < d) →
      K.Mem sh) (h : checkStmts s i stmts = .ok ()) : s.Runs K stmts := by
  induction stmts generalizing s i with
  | nil => trivial
  | cons st rest ih =>
    rw [checkStmts] at h
    split at h
    · cases h
    · rename_i hst
      obtain ⟨d, sh, hfind, hrole, hfwd, hexpr⟩ := Scope.stmt_ok hst
      refine ⟨⟨d, sh, hfind, hrole, hfwd, ?_⟩, ?_⟩
      · exact Scope.expr_shaped hdecls (hK st (.head _)) hexpr
      · exact ih (s := { s with written := st.dst :: s.written }) hdecls
          (fun st' hst' => hK st' (List.mem_cons_of_mem _ hst')) h

/-- What validation checks of one declaration. -/
structure DeclFits (d : Symbol) : Prop where
  name : isIdentifier d.name
  declared : d.role.isSynthesized = false
  pos : ∀ n ∈ d.shape, 0 < n

theorem nonPositive?_eq_none {sh : Shape} (h : sh.nonPositive? = none) : ∀ n ∈ sh, 0 < n := by
  unfold Shape.nonPositive? at h
  generalize 0 = i at h
  induction sh generalizing i with
  | nil => simp
  | cons n sh ih =>
    rw [Shape.nonPositiveFrom?] at h
    split at h
    · cases h
    · intro m hm
      rcases List.mem_cons.mp hm with rfl | hm
      · omega
      · exact ih _ h m hm

theorem checkDecl_ok {before : List Symbol} {d : Symbol} (h : checkDecl before d = .ok ()) :
    DeclFits d ∧ ∀ d' ∈ before, d'.name ≠ d.name := by
  simp only [checkDecl, check_eq_ok] at h
  obtain ⟨hname, hbefore, hrole, h⟩ := h
  refine ⟨⟨by simpa using hname, by simpa using hrole, nonPositive?_eq_none ?_⟩, ?_⟩
  · split at h
    · cases h
    · rename_i hnone
      cases hf : d.shape.nonPositive? with
      | none => rfl
      | some p => exact absurd hf (hnone p.1 p.2)
  · simpa using hbefore

theorem checkDecls_ok {before decls : List Symbol} (h : checkDecls before decls = .ok ())
    (hnd : (before.map Symbol.name).Nodup) :
    (∀ d ∈ decls, DeclFits d) ∧ ((before ++ decls).map Symbol.name).Nodup := by
  induction decls generalizing before with
  | nil => exact ⟨by simp, by simpa using hnd⟩
  | cons d decls ih =>
    obtain ⟨⟨⟩, hd, hrest⟩ := bind_eq_ok.1 h
    obtain ⟨hfits, hne⟩ := checkDecl_ok hd
    obtain ⟨hall, hnd'⟩ := ih hrest (by
      rw [List.map_append, List.nodup_append]
      refine ⟨hnd, by simp, ?_⟩
      intro a ha b hb
      obtain ⟨d', hd', rfl⟩ := List.mem_map.mp ha
      rw [List.mem_singleton.mp hb]
      exact hne d' hd')
    refine ⟨fun d' hd' => ?_, by simpa using hnd'⟩
    rcases List.mem_cons.mp hd' with rfl | hd'
    · exact hfits
    · exact hall d' hd'

end

/-- The shapes of all tensors and of all parts of expressions belong to a class, if their extents
are positive. -/
structure Program.Within (p : Program) (K : ShapeClass) : Prop where
  decls : ∀ d ∈ p.decls, (∀ n ∈ d.shape, 0 < n) → K.Mem d.shape
  parts : ∀ st ∈ p.stmts, ∀ part ∈ st.expr.parts, ∀ sh, part.shape = some sh → (∀ d ∈ sh, 0 < d) →
    K.Mem sh

/-- A bound on the shapes of a program is checked on their list. -/
theorem Program.Within.of_shapes {p : Program} {K : ShapeClass} {Q : Shape → Prop}
    (hK : ∀ sh, (∀ d ∈ sh, 0 < d) → Q sh → K.Mem sh) (hdecls : ∀ d ∈ p.decls, Q d.shape)
    (hparts : ∀ sh ∈ p.stmts.flatMap fun st => st.expr.parts.filterMap Expr.shape, Q sh) :
    p.Within K :=
  ⟨fun d hd hpos => hK _ hpos (hdecls d hd), fun st hst part hpart sh hsh hpos => hK sh hpos
    (hparts sh (List.mem_flatMap.mpr ⟨st, hst, List.mem_filterMap.mpr ⟨part, hpart, hsh⟩⟩))⟩

/-- All shapes with positive extents. -/
def positive : ShapeClass where
  Mem sh := ∀ d ∈ sh, 0 < d
  pos h := h
  perm h hperm := fun d hd => h d (hperm.mem_iff.mp hd)

theorem Program.within_positive (p : Program) : p.Within positive :=
  ⟨fun _ _ h => h, fun _ _ _ _ _ _ h => h⟩

/-- What a valid program is like. -/
structure Program.Checked (K : ShapeClass) (p : Program) : Prop where
  nodup : (p.decls.map Symbol.name).Nodup
  fits : ∀ d ∈ p.decls, DeclFits d
  mem : ∀ d ∈ p.decls, K.Mem d.shape
  runs : Scope.Runs K { decls := p.decls } p.stmts

theorem Program.Valid.isIdentifier_name {p : Program} (h : p.Valid) : isIdentifier p.name := by
  simp only [Program.Valid, validate, check_eq_ok] at h
  simpa using h.1

theorem Program.Valid.checked {K : ShapeClass} {p : Program} (h : p.Valid) (hK : p.Within K) :
    p.Checked K := by
  simp only [Program.Valid, validate, check_eq_ok, bind_eq_ok] at h
  obtain ⟨-, ⟨⟩, hdecls, hstmts⟩ := h
  obtain ⟨hfits, hnd⟩ := checkDecls_ok hdecls List.nodup_nil
  exact ⟨hnd, hfits, fun d hd => hK.decls d hd (hfits d hd).pos,
    checkStmts_ok (fun d hd => (hfits d hd).pos) hK.parts hstmts⟩

end Typed

end LoopNest
