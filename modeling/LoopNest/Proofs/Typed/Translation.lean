import LoopNest.Proofs.Typed.Validity

/-!
# The clauses of a typed program

The tree of an expression (`Expr.tree`) and the clause of a statement (`Stmt.clause`), without
numbers of nodes. They say what is to be built. The clauses of a valid program are sound.
-/

namespace LoopNest.Typed

namespace Expr

mutual
/-- The tree of an expression. Its nodes have no numbers. -/
def tree : Expr → Tree
  | .missing => .missing
  | .ident name dims => .node 0 { kind := .identifier, name, shape := dims } []
  | .const v => .node 0 { kind := .constant, value := v } []
  | .binary op x y =>
    .node 0 { kind := op, shape := x.tree.shape, operands := [0, 0] } [x.tree, y.tree]
  | .scale op c x =>
    if op = .scalarDiv then
      .node 0 { kind := .scalarDiv, shape := x.tree.shape, operands := [0, 0] } [x.tree, c.tree]
    else
      .node 0 { kind := .scalarMul, shape := x.tree.shape, operands := [0, 0] } [c.tree, x.tree]
  | .product x y =>
    .node 0 { kind := .product, shape := x.tree.shape ++ y.tree.shape, operands := [0, 0] }
      [x.tree, y.tree]
  | .contract x ls y rs =>
    let shape := x.tree.shape.remove ls ++ y.tree.shape.remove rs
    .node 0 { kind := .contraction, shape, operands := [0, 0], lhsAxes := ls, rhsAxes := rs }
      [x.tree, y.tree]
  | .stack ms =>
    let shape := (ms.length : Int) :: ((trees ms).head?.map Tree.shape).getD []
    .node 0 { kind := .stack, shape, operands := ms.map fun _ => 0 } (trees ms)
  | .transpose x pairs =>
    let shape := (forward pairs x.tree.shape).getD []
    .node 0 { kind := .transposition, shape, operands := [0], pairs } [x.tree]
  | .shared _ e => e.tree

/-- The trees of several expressions. -/
def trees : List Expr → List Tree
  | [] => []
  | e :: es => e.tree :: trees es
end

theorem trees_eq (es : List Expr) : trees es = es.map tree := by
  induction es with
  | nil => rfl
  | cons e es ih => rw [trees, ih, List.map_cons]

variable {K : ShapeClass} {s : Scope} {S : Shapes}

/-- The tree of an expression that obeys the shape rules is well-shaped. -/
theorem Shaped.typed {e : Expr} {sh : Shape} (h : e.Shaped K s sh)
    (hS : ∀ name d, s.find? name = some d → S name = some d.shape) :
    e.tree.shape = sh ∧ e.tree.Typed K.Admits S := by
  induction h with
  | @ident d name hd _ hK =>
    refine ⟨rfl, .node ⟨hK, fun _ => rfl⟩ (.identifier rfl (hS name d hd) ?_) (by simp)⟩
    exact ⟨[], rfl, .nil⟩
  | const hK => exact ⟨rfl, .node ⟨hK, by simp⟩ (.constant rfl rfl) (by simp)⟩
  | @binary op x y sh hop hx hy ihx ihy =>
    obtain ⟨hxs, hxt⟩ := ihx
    obtain ⟨hys, hyt⟩ := ihy
    have hne : op ≠ .identifier := by
      rintro rfl
      cases hop
    refine ⟨hxs, .node ⟨hxs ▸ hx.mem, by simp [hne]⟩ ?_ (by simpa using ⟨hxt, hyt⟩)⟩
    simp only [List.map_cons, List.map_nil, hys, hxs]
    exact .elementwise hop
  | @scale op c x sh hop hc hx ihc ihx =>
    obtain ⟨hcs, hct⟩ := ihc
    obtain ⟨hxs, hxt⟩ := ihx
    simp only [tree]
    split
    · refine ⟨hxs, .node ⟨hxs ▸ hx.mem, by simp⟩ ?_ (by simpa using ⟨hxt, hct⟩)⟩
      simp only [List.map_cons, List.map_nil, hcs]
      exact .scalarDiv rfl
    · refine ⟨hxs, .node ⟨hxs ▸ hx.mem, by simp⟩ ?_ (by simpa using ⟨hct, hxt⟩)⟩
      simp only [List.map_cons, List.map_nil, hcs]
      exact .scalarMul rfl
  | product _ _ hK ihx ihy =>
    obtain ⟨hxs, hxt⟩ := ihx
    obtain ⟨hys, hyt⟩ := ihy
    subst hxs hys
    exact ⟨rfl, .node ⟨hK, by simp⟩ (.product rfl rfl) (by simpa using ⟨hxt, hyt⟩)⟩
  | contract _ _ hl hr hK ihx ihy =>
    obtain ⟨hxs, hxt⟩ := ihx
    obtain ⟨hys, hyt⟩ := ihy
    subst hxs hys
    exact ⟨rfl, .node ⟨hK, by simp⟩ (.contraction rfl hl hr rfl) (by simpa using ⟨hxt, hyt⟩)⟩
  | @stack m ms sh _ hK ih =>
    have hshape : (tree (.stack (m :: ms))).shape = ((ms.length + 1 : Nat) : Int) :: sh := by
      simp [tree, trees, (ih m (.head _)).1]
    refine ⟨hshape, ?_⟩
    rw [tree] at hshape ⊢
    rw [Tree.shape_node] at hshape
    refine .node ⟨by rw [hshape]; exact hK, by simp⟩ ?_ ?_
    · rw [trees_eq, List.map_map, List.map_cons]
      refine .stack rfl (by simp) (by simp) ?_
      · simp only [List.mem_map, Function.comp_apply]
        rintro _ ⟨e, he, rfl⟩
        rw [(ih e (List.mem_cons_of_mem _ he)).1, (ih m (.head _)).1]
    · rw [trees_eq]
      intro t ht
      obtain ⟨e, he, rfl⟩ := List.mem_map.mp ht
      exact (ih e he).2
  | @transpose x xs sh pairs hx hfwd ih =>
    obtain ⟨hxs, hxt⟩ := ih
    subst hxs
    have hshape : (tree (.transpose x pairs)).shape = sh := by simp [tree, hfwd]
    refine ⟨hshape, .node ⟨?_, by simp⟩ (.transposition rfl ?_) (by simpa using hxt)⟩
    · rw [hfwd]
      exact K.perm hx.mem (perm_forward hfwd)
    · rw [hfwd]
      rfl
  | shared _ ih => exact ih

theorem Shaped.tree_shape {e : Expr} {sh : Shape} (h : e.Shaped K s sh) : e.tree.shape = sh :=
  (h.typed (S := fun name => (s.find? name).map (·.shape)) fun _ _ hd => by rw [hd]; rfl).1

/-- The expression reads a tensor, which is an input or was assigned before. -/
def ReadsIn (s : Scope) (e : Expr) (name : String) : Prop :=
  ∃ d, s.find? name = some d ∧ (d.role.isInput ∨ name ∈ s.written) ∧ .ident name d.shape ∈ e.parts

theorem ReadsIn.mono {e e' : Expr} {name : String} (h : e.ReadsIn s name) (hsub : e.parts ⊆ e'.parts) :
    e'.ReadsIn s name := by
  obtain ⟨d, hd, hread, hpart⟩ := h
  exact ⟨d, hd, hread, hsub hpart⟩

/-- The tree of an expression reads inputs and what was assigned before. -/
theorem Shaped.names_read {e : Expr} {sh : Shape} (h : e.Shaped K s sh) :
    ∀ name ∈ e.tree.names, e.ReadsIn s name := by
  induction h with
  | @ident d name hd hread _ =>
    intro m hm
    obtain rfl : m = name := by simpa [tree, Tree.names_node] using hm
    exact ⟨d, hd, hread, .head _⟩
  | const => simp [tree, Tree.names_node]
  | @binary op x y sh hop _ _ ihx ihy =>
    have hne : op ≠ .identifier := by
      rintro rfl
      cases hop
    intro m hm
    simp only [tree, Tree.names_node, hne, if_false, List.nil_append, List.flatMap_cons,
      List.flatMap_nil, List.append_nil, List.mem_append] at hm
    rcases hm with hm | hm
    · exact (ihx m hm).mono (by simp [parts])
    · exact (ihy m hm).mono (by simp [parts])
  | @scale op c x sh _ _ _ ihc ihx =>
    intro m hm
    obtain hm | hm : m ∈ c.tree.names ∨ m ∈ x.tree.names := by
      by_cases hdiv : op = .scalarDiv <;> simp [tree, hdiv, Tree.names_node] at hm <;> tauto
    · exact (ihc m hm).mono (by simp [parts])
    · exact (ihx m hm).mono (by simp [parts])
  | product _ _ _ ihx ihy | contract _ _ _ _ _ ihx ihy =>
    intro m hm
    simp only [tree, Tree.names_node, reduceCtorEq, if_false, List.nil_append, List.flatMap_cons,
      List.flatMap_nil, List.append_nil, List.mem_append] at hm
    rcases hm with hm | hm
    · exact (ihx m hm).mono (by simp [parts])
    · exact (ihy m hm).mono (by simp [parts])
  | @stack e₀ ms sh _ _ ih =>
    intro m hm
    simp only [tree, Tree.names_node, reduceCtorEq, if_false, List.nil_append, List.mem_flatMap,
      trees_eq, List.mem_map] at hm
    obtain ⟨_, ⟨e, he, rfl⟩, hm⟩ := hm
    refine (ih e he m hm).mono fun part hpart => ?_
    rw [parts, partsAll_eq]
    exact List.mem_cons_of_mem _ (List.mem_flatMap.mpr ⟨e, he, hpart⟩)
  | transpose _ _ ih =>
    intro m hm
    simp only [tree, Tree.names_node, reduceCtorEq, if_false, List.nil_append, List.flatMap_cons,
      List.flatMap_nil, List.append_nil] at hm
    exact (ih m hm).mono (by simp [parts])
  | shared _ ih =>
    intro m hm
    exact (ih m hm).mono (by simp [parts])

end Expr

/-- The statement does not read its own destination. -/
def Stmt.ReadsOthers (st : Stmt) : Prop := ∀ dims, .ident st.dst dims ∉ st.expr.parts

/-- The destination of a statement. -/
def Stmt.target (find : Symbols) (st : Stmt) : Node :=
  let shape := ((find st.dst).bind fun d => forward st.perm d.shape).getD []
  { kind := .identifier, name := st.dst, shape, perm := st.perm }

/-- The clause of a statement. Its nodes have no numbers. -/
def Stmt.clause (find : Symbols) (st : Stmt) : Clause :=
  { dst := 0, target := st.target find, tree := st.expr.tree }

/-- The clauses of a program. -/
def Program.clauses (p : Program) : List Clause := p.stmts.map (Stmt.clause p.decl?)

theorem Scope.Assigns.fits {K : ShapeClass} {s : Scope} {st : Stmt} (h : s.Assigns K st) :
    (st.clause s.find?).Fits K s.find? := by
  obtain ⟨d, sh, hd, hrole, hfwd, hshaped⟩ := h
  have htarget : (st.target s.find?).shape = sh := by simp [Stmt.target, hd, hfwd]
  obtain ⟨hshape, htyped⟩ := hshaped.typed fun name d hd => Symbols.shapes_eq hd
  refine ⟨rfl, ⟨d, hd, ⟨[], ?_, .nil⟩, hrole⟩, hshape.trans htarget.symm, htyped⟩
  rw [List.nil_append]
  exact htarget ▸ hfwd

theorem Scope.Runs.fits {K : ShapeClass} {s : Scope} {stmts : List Stmt} (h : s.Runs K stmts) :
    ∀ c ∈ stmts.map (Stmt.clause s.find?), c.Fits K s.find? := by
  induction stmts generalizing s with
  | nil => simp
  | cons st rest ih =>
    intro c hc
    rw [List.map_cons, List.mem_cons] at hc
    rcases hc with rfl | hc
    · exact h.1.fits
    · exact ih h.2 c hc

theorem Scope.Assigns.filled {K : ShapeClass} {s : Scope} {st : Stmt} (h : s.Assigns K st)
    {d : Symbol} (hd : s.find? st.dst = some d) :
    Filled [st.target s.find?] st.dst d.shape := by
  obtain ⟨d', hd', hviews, -⟩ := h.fits.declared
  rw [Clause.name, Stmt.clause, show (st.target s.find?).name = st.dst from rfl, hd] at hd'
  cases hd'
  exact hviews.filled rfl

theorem Scope.Runs.ordered {K : ShapeClass} {s : Scope} {stmts : List Stmt} (h : s.Runs K stmts)
    {written : List Node}
    (hwritten : ∀ name ∈ s.written, ∀ d, s.find? name = some d → Filled written name d.shape) :
    Ordered s.find? written (stmts.map (Stmt.clause s.find?)) := by
  induction stmts generalizing s written with
  | nil => trivial
  | cons st rest ih =>
    refine ⟨fun name hname d hd => ?_, ih h.2 fun name hname d hd sub hsub => ?_⟩
    · obtain ⟨_, _, -, -, -, hshaped⟩ := h.1
      obtain ⟨d', hd', hread, -⟩ := hshaped.names_read name hname
      rw [hd] at hd'
      cases hd'
      exact hread.imp_right fun hmem => hwritten name hmem d hd
    · rcases List.mem_cons.mp hname with rfl | hname
      · exact (h.1.filled hd sub hsub).mono (by simp [Stmt.clause])
      · exact (hwritten name hname d hd sub hsub).mono (List.subset_cons_self _ _)

theorem Scope.Runs.filled {K : ShapeClass} {s : Scope} {stmts : List Stmt} (h : s.Runs K stmts) :
    ∀ st ∈ stmts, ∀ d, s.find? st.dst = some d → Filled [st.target s.find?] st.dst d.shape := by
  induction stmts generalizing s with
  | nil => simp
  | cons st rest ih =>
    intro st' hst' d hd
    rcases List.mem_cons.mp hst' with rfl | hst'
    · exact h.1.filled hd
    · exact ih h.2 st' hst' d hd

/-- The clauses of a valid program obey the invariants. -/
theorem Program.Checked.sound {K : ShapeClass} {p : Program} (h : p.Checked K) :
    Sound K p.decl? p.clauses := by
  have hmem : ∀ {name d}, p.decl? name = some d → d ∈ p.decls := fun hd =>
    List.mem_of_find?_eq_some hd
  have hrole : ∀ {name d}, p.decl? name = some d → d.role.isSynthesized = true → False := by
    intro name d hd hsynth
    rw [(h.fits d (hmem hd)).declared] at hsynth
    cases hsynth
  refine ⟨fun name d hd => h.mem d (hmem hd), fun name d hd hsynth => (hrole hd hsynth).elim,
    h.runs.fits, h.runs.ordered (by simp), ?_, ?_, ?_⟩
  · intro c hc d hd sub hsub
    obtain ⟨st, hst, rfl⟩ := List.mem_map.mp hc
    refine (h.runs.filled st hst d hd sub hsub).mono fun n hn => ?_
    rw [List.mem_singleton.mp hn]
    exact List.mem_map_of_mem (f := Clause.target) (List.mem_map_of_mem hst)
  · exact fun name d hd hsynth => (hrole hd hsynth).elim
  · exact List.pairwise_of_forall fun _ _ _ d hd hsynth => (hrole hd hsynth).elim

end LoopNest.Typed
