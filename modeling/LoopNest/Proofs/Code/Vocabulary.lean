import LoopNest.C.Emit
import LoopNest.Proofs.Code.Operands
import LoopNest.Proofs.Loops

/-!
# What code is made of

The writer makes code of what its program has (`Emit.program_ensures`): the tensors are those of the
assignments, the literals are constants of their trees, and loops have the names that the writer gives
them. Such a `Vocabulary` is kept by each step of the writer.
-/

namespace LoopNest.C

/-! ## The tensors of statements -/

/-- The tensors that an expression loads from. -/
def Expr.tensors : Expr → List String
  | .literal _ | .temp _ => []
  | .element e => [e.tensor]
  | .arith _ x y => x.tensors ++ y.tensors

mutual
/-- The tensors that a statement loads from or stores to. -/
def Stmt.tensors : Stmt → List String
  | .loop _ _ body => Stmt.tensorsAll body
  | .declare _ value => value.tensors
  | .store dst value => dst.tensor :: value.tensors
  | .clear dst => [dst.tensor]
  | .accumulate dst x y => dst.tensor :: (x.tensors ++ y.tensors)

/-- The tensors of several statements. -/
def Stmt.tensorsAll : List Stmt → List String
  | [] => []
  | s :: ss => s.tensors ++ Stmt.tensorsAll ss
end

/-! ## Vocabularies -/

/-- The tensors and the literals that code may be made of. -/
structure Vocabulary where
  tensor : String → Prop
  literal : Float → Prop

/-- The names that the writer gives to loops. -/
def IsLoop (name : String) : Prop :=
  name = Emit.sharedIndex ∨ ∃ t, name = NameSupply.numbered "i" t ∨ name = NameSupply.numbered "k" t

/-- The index of a loop, or a position. -/
def Index.Usual : Index → Prop
  | .loop name => IsLoop name
  | .fixed k => 0 ≤ k

/-- An address with such indices. -/
def Offset.Usual (o : Offset) : Prop := ∀ i ∈ o.indices, i.Usual

section

variable (V : Vocabulary)

/-- An element of a tensor of the vocabulary. -/
def Element.Uses (e : Element) : Prop := V.tensor e.tensor ∧ e.offset.Usual

/-- An expression over the vocabulary. -/
def Expr.Uses : Expr → Prop
  | .literal v => V.literal v
  | .element e => e.Uses V
  | .temp _ => True
  | .arith _ x y => x.Uses ∧ y.Uses

mutual
/-- A statement over the vocabulary. -/
def Stmt.Uses : Stmt → Prop
  | .loop index _ body => IsLoop index ∧ Stmt.UsesAll body
  | .declare _ value => value.Uses V
  | .store dst value => dst.Uses V ∧ value.Uses V
  | .clear dst => dst.Uses V
  | .accumulate dst x y => dst.Uses V ∧ x.Uses V ∧ y.Uses V

/-- Several statements over the vocabulary. -/
def Stmt.UsesAll : List Stmt → Prop
  | [] => True
  | s :: ss => s.Uses ∧ Stmt.UsesAll ss
end

/-- A node whose code is over the vocabulary. -/
structure Vocabulary.Covers (n : Node) : Prop where
  tensor : n.kind = .identifier → V.tensor n.name
  fixed : n.kind = .identifier → ∀ k ∈ n.fixed, 0 ≤ k
  literal : n.kind = .constant → V.literal n.value

end

variable {V : Vocabulary}

theorem Stmt.usesAll_append {ss ss' : List Stmt} :
    UsesAll V (ss ++ ss') ↔ UsesAll V ss ∧ UsesAll V ss' := by
  induction ss with
  | nil => simp [UsesAll]
  | cons s ss ih => simp only [List.cons_append, UsesAll, ih, and_assoc]

theorem Expr.Uses.tensors {e : Expr} (h : e.Uses V) : ∀ name ∈ e.tensors, V.tensor name := by
  induction e with
  | literal | temp => exact fun _ hname => absurd hname List.not_mem_nil
  | element e => exact fun name hname => List.mem_singleton.mp hname ▸ h.1
  | arith op x y ihx ihy =>
    exact fun name hname => (List.mem_append.mp hname).elim (ihx h.1 name) (ihy h.2 name)

mutual
theorem Stmt.Uses.tensors : {s : Stmt} → s.Uses V → ∀ name ∈ s.tensors, V.tensor name
  | .loop _ _ _, h, name, hname => Stmt.UsesAll.tensors h.2 name hname
  | .declare _ _, h, name, hname => Expr.Uses.tensors h name hname
  | .store dst value, h, name, hname => by
    rcases List.mem_cons.mp hname with rfl | hname
    · exact h.1.1
    · exact Expr.Uses.tensors h.2 name hname
  | .clear dst, h, name, hname => List.mem_singleton.mp hname ▸ h.1
  | .accumulate dst x y, h, name, hname => by
    rcases List.mem_cons.mp hname with rfl | hname
    · exact h.1.1
    · exact (List.mem_append.mp hname).elim (Expr.Uses.tensors h.2.1 name) (Expr.Uses.tensors h.2.2 name)

/-- The tensors of code are those of its vocabulary. -/
theorem Stmt.UsesAll.tensors : {ss : List Stmt} → UsesAll V ss → ∀ name ∈ tensorsAll ss, V.tensor name
  | [], _, _, hname => absurd hname List.not_mem_nil
  | _ :: _, h, name, hname =>
    (List.mem_append.mp hname).elim (Stmt.Uses.tensors h.1 name) (Stmt.UsesAll.tensors h.2 name)
end

/-! ### Positions -/

theorem Index.Usual.isLoop {i : Index} (h : i.Usual) {name : String} (hname : i.loopName? = some name) :
    IsLoop name := by
  cases i with
  | loop n =>
    cases hname
    exact h
  | fixed k =>
    rw [Index.loopName?, if_neg (Int.not_lt.mpr h)] at hname
    cases hname

theorem offsetOf_usual {layout : Layout} {is : List Index} (his : ∀ i ∈ is, i.Usual) {dims : Shape}
    {o : Offset} (h : offsetOf layout is dims = some o) : o.Usual := by
  intro i hi
  rcases (offsetOf_subset h).1 with hsub | horigin
  · exact his i (hsub hi)
  · rw [horigin] at hi
    exact List.mem_singleton.mp hi ▸ Int.le_refl 0

theorem subscript_usual {n : Node} (hfixed : ∀ k ∈ n.fixed, 0 ≤ k) {own sub : List Index}
    (hown : ∀ i ∈ own, i.Usual) (h : n.subscript .fixed own = some sub) : ∀ i ∈ sub, i.Usual := by
  intro i hi
  rw [(perm_forward (backward_eq_some_iff.mp h)).symm.mem_iff, List.mem_append, List.mem_map] at hi
  rcases hi with ⟨k, hk, rfl⟩ | hi
  · exact hfixed k hk
  · exact hown i hi

theorem operandIndices_usual {n : Node} {ranks : List (Option Nat)} {res con : List Index}
    {ops : List (List Index)} (hres : ∀ i ∈ res, i.Usual) (hcon : ∀ i ∈ con, i.Usual)
    (h : n.operandIndices ranks res con = some ops) : ∀ is ∈ ops, ∀ i ∈ is, i.Usual := by
  have hsame : ∀ {is : List Index}, (∀ i ∈ is, i.Usual) → List.Forall₂ (fun i _ => i.Usual) is is :=
    fun his => List.forall₂_same.mpr his
  obtain ⟨ops', -, hops⟩ := Node.operandIndices_rel (hsame hres) (hsame hcon) h
  intro is his i hi
  obtain ⟨j, hj⟩ := List.mem_iff_getElem?.mp his
  obtain ⟨is', -, his'⟩ := forall₂_getElem? hops hj
  obtain ⟨k, hk⟩ := List.mem_iff_getElem?.mp hi
  obtain ⟨_, -, husual⟩ := forall₂_getElem? his' hk
  exact husual

/-! ### The code written so far -/

/-- The code written so far is over the vocabulary. -/
structure Writer.Uses (V : Vocabulary) (w : Writer) : Prop where
  loops : ∀ f ∈ w.frames, IsLoop f.index
  bodies : ∀ f ∈ w.frames, Stmt.UsesAll V f.body
  done : Stmt.UsesAll V w.done
  flat : ∀ index ∈ w.flat, IsLoop index

namespace Writer.Uses

variable {w : Writer}

theorem write (h : w.Uses V) {s : Stmt} (hs : s.Uses V) : (w.write s).Uses V := by
  have happend : ∀ {ss : List Stmt}, Stmt.UsesAll V ss → Stmt.UsesAll V (ss ++ [s]) := fun hss =>
    Stmt.usesAll_append.mpr ⟨hss, hs, trivial⟩
  rw [Writer.write]
  split
  · exact ⟨h.loops, h.bodies, happend h.done, h.flat⟩
  · rename_i f fs hframes
    have hf : f ∈ w.frames := hframes ▸ .head _
    refine ⟨fun f' hf' => ?_, fun f' hf' => ?_, h.done, h.flat⟩
    · rcases List.mem_cons.mp hf' with rfl | hf'
      · exact h.loops f hf
      · exact h.loops f' (hframes ▸ List.mem_cons_of_mem _ hf')
    · rcases List.mem_cons.mp hf' with rfl | hf'
      · exact happend (h.bodies f hf)
      · exact h.bodies f' (hframes ▸ List.mem_cons_of_mem _ hf')

theorem openLoop (h : w.Uses V) {index : String} (hindex : IsLoop index) (extent : Int) :
    (w.openLoop index extent).Uses V := by
  refine ⟨fun f hf => ?_, fun f hf => ?_, h.done, h.flat⟩
  · rcases List.mem_cons.mp hf with rfl | hf
    · exact hindex
    · exact h.loops f hf
  · rcases List.mem_cons.mp hf with rfl | hf
    · trivial
    · exact h.bodies f hf

theorem closeLoop (h : w.Uses V) : w.closeLoop.Uses V := by
  rw [Writer.closeLoop]
  split
  · exact h
  · rename_i f fs hframes
    have hmem : ∀ f' ∈ fs, f' ∈ w.frames := fun f' hf' => hframes ▸ List.mem_cons_of_mem _ hf'
    have hrest : ({ w with frames := fs } : Writer).Uses V :=
      ⟨fun f' hf' => h.loops f' (hmem f' hf'), fun f' hf' => h.bodies f' (hmem f' hf'), h.done, h.flat⟩
    have hf : f ∈ w.frames := hframes ▸ .head _
    exact hrest.write ⟨h.loops f hf, h.bodies f hf⟩

theorem closeTo (h : w.Uses V) (depth : Nat) : (w.closeTo depth).Uses V := by
  rw [Writer.closeTo]
  induction w.frames.length - depth generalizing w with
  | zero => exact h
  | succ n ih => exact ih h.closeLoop

theorem ensure (h : w.Uses V) {indices : List Index} (hindices : ∀ i ∈ indices, i.Usual) :
    (w.ensure indices).Uses V := by
  rw [Writer.ensure]
  split
  · exact h
  clear * - h hindices
  induction indices generalizing w with
  | nil => exact h
  | cons i indices ih =>
    rw [List.forall_mem_cons] at hindices
    refine ih ?_ hindices.2
    beta_reduce
    split
    · exact h
    · rename_i name hname
      split
      · exact h
      · exact h.openLoop (hindices.1.isLoop hname) _

end Writer.Uses

/-! ## Writing code -/

namespace Emit

variable {β γ : Type}

/-- Where code over the vocabulary can be written, the result satisfies `Q`. -/
def Ensures (V : Vocabulary) (m : Emit β) (Q : β → Prop) : Prop :=
  ∀ w b w', m w = .ok (b, w') → w.Uses V → w'.Uses V ∧ Q b

namespace Ensures

variable {m : Emit β} {f : β → Emit γ} {Q : β → Prop} {R : γ → Prop}

theorem pure {b : β} (hb : Q b) : Ensures V (pure b : Emit β) Q := by
  rintro w _ _ ⟨⟩ hw
  exact ⟨hw, hb⟩

theorem get : Ensures V (get : Emit Writer) (·.Uses V) := by
  rintro w _ _ ⟨⟩ hw
  exact ⟨hw, hw⟩

theorem demand (o : Option β) : Ensures V (demand o) (o = some ·) := by
  intro w b w' h hw
  cases o with
  | none => cases h
  | some =>
    cases h
    exact ⟨hw, rfl⟩

theorem missing : Ensures V (Emit.demand none : Emit β) Q := by
  rintro w _ _ ⟨⟩

theorem modify {g : Writer → Writer} (hg : ∀ w : Writer, w.Uses V → (g w).Uses V) :
    Ensures V (modify g : Emit Unit) fun _ => True := by
  rintro w _ _ ⟨⟩ hw
  exact ⟨hg w hw, trivial⟩

theorem write {s : Stmt} (hs : s.Uses V) : Ensures V (write s) fun _ => True :=
  .modify fun _ hw => hw.write hs

theorem fail (text : String) : Ensures V (Emit.fail text : Emit β) Q := by
  rintro w _ _ ⟨⟩

theorem bind (hm : Ensures V m Q) (hf : ∀ b, Q b → Ensures V (f b) R) : Ensures V (m >>= f) R := by
  intro w c w' h hw
  change (m w >>= fun r => f r.1 r.2) = _ at h
  cases hrun : m w with
  | error e =>
    rw [hrun] at h
    cases h
  | ok r =>
    obtain ⟨b, w₁⟩ := r
    obtain ⟨hw₁, hb⟩ := hm w b w₁ hrun hw
    rw [hrun] at h
    exact hf b hb w₁ c w' h hw₁

end Ensures

/-! ### Expressions -/

variable (p : Program) (layout : Layout)

theorem access_ensures {n : Node} (hname : V.tensor n.name) (hfixed : ∀ k ∈ n.fixed, 0 ≤ k)
    {own : List Index} (hown : ∀ i ∈ own, i.Usual) : Ensures V (access p layout n own) (·.Uses V) := by
  rw [access]
  split
  · exact .fail _
  refine (Ensures.demand _).bind fun sub hsub => ?_
  have husual := subscript_usual hfixed hown hsub
  refine (Ensures.modify fun w hw => hw.ensure husual).bind fun _ _ => Ensures.get.bind fun w hw => ?_
  split
  · rename_i index _ _ hflat
    have hindex : (Index.loop index).Usual := hw.flat index hflat
    exact .pure ⟨hname, List.forall_mem_singleton.mpr hindex⟩
  · exact (Ensures.demand _).bind fun o ho => .pure ⟨hname, offsetOf_usual husual ho⟩

theorem operand_ensures {value : Emit Expr} (h : Ensures V value (·.Uses V)) (leaf : Bool) :
    Ensures V (operand leaf value) (·.Uses V) := by
  refine h.bind fun v hv => ?_
  split
  · exact .pure hv
  refine Ensures.get.bind fun w _ => ?_
  refine Ensures.bind (.modify fun w hw => ⟨hw.loops, hw.bodies, hw.done, hw.flat⟩) fun _ _ => ?_
  exact Ensures.bind (.write hv) fun _ _ => .pure trivial

theorem operandAt_ensures {values : List (List Index → Emit Expr)}
    (h : ∀ value ∈ values, ∀ idx : List Index, (∀ i ∈ idx, i.Usual) → Ensures V (value idx) (·.Uses V))
    (operands : List Tree) {indices : List (List Index)} (hindices : ∀ is ∈ indices, ∀ i ∈ is, i.Usual)
    (k : Nat) : Ensures V (operandAt operands values indices k) (·.Uses V) := by
  refine (Ensures.demand _).bind fun t _ => (Ensures.demand _).bind fun value hvalue => ?_
  refine (Ensures.demand _).bind fun idx hidx => ?_
  have husual := hindices idx (List.mem_of_getElem? hidx)
  exact operand_ensures (h value (List.mem_of_getElem? hvalue) idx husual) _

theorem trees_ensures {ts : List Tree} (h : ∀ t ∈ ts, ∀ idx : List Index, (∀ i ∈ idx, i.Usual) →
    Ensures V (tree p layout t idx) (·.Uses V)) :
    ∀ value ∈ trees p layout ts, ∀ idx : List Index, (∀ i ∈ idx, i.Usual) →
      Ensures V (value idx) (·.Uses V) := by
  rw [trees_eq_map]
  intro value hvalue
  obtain ⟨t, ht, rfl⟩ := List.mem_map.mp hvalue
  exact h t ht

theorem tree_ensures {t : Tree} (ht : ∀ n ∈ t.labels, V.Covers n) {idx : List Index}
    (hidx : ∀ i ∈ idx, i.Usual) : Ensures V (tree p layout t idx) (·.Uses V) := by
  induction t using Tree.inductionOn generalizing idx with
  | missing => exact Ensures.missing
  | node id n ts ih =>
    rw [Tree.labels_node, List.forall_mem_cons] at ht
    obtain ⟨hn, hbelow⟩ := ht
    have hts := trees_ensures p layout fun t hmem idx hidx => ih t hmem (fun m hm =>
      hbelow m (List.mem_flatMap.mpr ⟨t, hmem, hm⟩)) hidx
    have harith : ∀ op indices, (∀ is ∈ indices, ∀ i ∈ is, i.Usual) → Ensures V (do
        let x ← operandAt ts (trees p layout ts) indices 0
        let y ← operandAt ts (trees p layout ts) indices 1
        return Expr.arith op x y) (·.Uses V) := by
      intro op indices hindices
      refine (operandAt_ensures hts ts hindices 0).bind fun x hx => ?_
      exact (operandAt_ensures hts ts hindices 1).bind fun y hy => .pure ⟨hx, hy⟩
    rw [tree]
    unfold node
    cases hk : n.kind with
    | identifier =>
      exact (access_ensures p layout (hn.tensor hk) (hn.fixed hk) hidx).bind fun e he => .pure he
    | constant => exact .pure (hn.literal hk)
    | contraction | stack | transposition => exact (Ensures.demand _).bind fun text _ => .fail _
    | invalid | unknown => exact .fail _
    | _ =>
      refine (Ensures.demand _).bind fun indices hindices => ?_
      exact harith _ indices (operandIndices_usual hidx (fun _ hi => absurd hi List.not_mem_nil) hindices)

/-! ### Assignments -/

theorem resultIndices_ensures (axis : Option Nat) (i : Nat) (dims : Shape) :
    Ensures V (resultIndices axis i dims) fun is => ∀ i ∈ is, i.Usual := by
  induction dims generalizing i with
  | nil => exact .pure fun _ hi => absurd hi List.not_mem_nil
  | cons d dims ih =>
    rw [resultIndices]
    split
    · exact (ih (i + 1)).bind fun is his => .pure (List.forall_mem_cons.mpr ⟨.inl rfl, his⟩)
    refine Ensures.get.bind fun w _ => ?_
    refine Ensures.bind (.modify fun w hw => ⟨hw.loops, hw.bodies, hw.done, hw.flat⟩) fun _ _ => ?_
    refine (ih (i + 1)).bind fun is his => .pure (List.forall_mem_cons.mpr ⟨?_, his⟩)
    exact .inr ⟨w.nextIndex, .inl rfl⟩

theorem openSums_ensures (x : Node) (axes : List Int) :
    Ensures V (openSums x axes) fun is => ∀ i ∈ is, i.Usual := by
  induction axes with
  | nil => exact .pure fun _ hi => absurd hi List.not_mem_nil
  | cons axis axes ih =>
    refine Ensures.get.bind fun w _ => ?_
    have hloop : IsLoop s!"k{w.nextSum}" := .inr ⟨w.nextSum, .inr rfl⟩
    refine Ensures.bind (.modify fun w hw => ⟨hw.loops, hw.bodies, hw.done, hw.flat⟩) fun _ _ => ?_
    refine (Ensures.demand _).bind fun extent _ => ?_
    refine Ensures.bind (.modify fun w hw => hw.openLoop hloop extent) fun _ _ => ?_
    exact ih.bind fun is his => .pure (List.forall_mem_cons.mpr ⟨hloop, his⟩)

section

variable {dst : Node} (hname : V.tensor dst.name) (hfixed : ∀ k ∈ dst.fixed, 0 ≤ k) {result : List Index}
  (hresult : ∀ i ∈ result, i.Usual)
include hname hfixed hresult

theorem contraction_ensures {n : Node} {ts : List Tree} (hts : ∀ t ∈ ts, ∀ m ∈ t.labels, V.Covers m) :
    Ensures V (contraction p layout dst n ts result) fun _ => True := by
  refine Ensures.bind (.modify fun w hw => hw.ensure hresult) fun _ _ => ?_
  refine (access_ensures p layout hname hfixed hresult).bind fun lhs hlhs => ?_
  refine Ensures.bind (.write hlhs) fun _ _ => (Ensures.demand _).bind fun x _ => ?_
  refine (openSums_ensures x _).bind fun sums hsums => (Ensures.demand _).bind fun indices hindices => ?_
  have husual := operandIndices_usual hresult hsums hindices
  have hvalues := trees_ensures p layout fun t ht idx hidx => tree_ensures p layout (hts t ht) hidx
  refine (operandAt_ensures hvalues ts husual 0).bind fun xv hxv => ?_
  exact (operandAt_ensures hvalues ts husual 1).bind fun yv hyv => .write ⟨hlhs, hxv, hyv⟩

theorem body_ensures {expr : Tree} (hexpr : ∀ n ∈ expr.labels, V.Covers n) :
    Ensures V (body p layout dst expr result) fun _ => True := by
  cases expr with
  | missing => exact Ensures.missing
  | node id n ts =>
    rw [body]
    split
    · rw [Tree.labels_node, List.forall_mem_cons] at hexpr
      refine contraction_ensures p layout hname hfixed hresult fun t ht m hm => hexpr.2 m ?_
      exact List.mem_flatMap.mpr ⟨t, ht, hm⟩
    · refine (tree_ensures p layout hexpr hresult).bind fun value hvalue => ?_
      refine (access_ensures p layout hname hfixed hresult).bind fun lhs hlhs => ?_
      exact .write ⟨hlhs, hvalue⟩

omit hname hfixed in
theorem openFlat_ensures (opts : EmitOptions) (a : Assignment) :
    Ensures V (openFlat p opts a dst result) fun _ => True := by
  unfold openFlat
  split
  · refine (Ensures.demand _).bind fun flat _ => ?_
    cases flat with
    | false => exact .pure trivial
    | true =>
      match result, hresult with
      | [], _ | .fixed _ :: _, _ => exact Ensures.missing
      | .loop index :: _, hresult =>
        refine .modify fun w hw => ?_
        have hindex : IsLoop index := hresult _ (.head _)
        have hopen := hw.openLoop hindex dst.shape.size
        refine ⟨hopen.loops, hopen.bodies, hopen.done, ?_⟩
        rintro _ ⟨⟩
        exact hindex
  · exact .pure trivial

end

/-- The nodes of an assignment are covered by a vocabulary. -/
structure Within (p : Program) (V : Vocabulary) (a : Assignment) : Prop where
  tensor : ∀ d, p.dst? a = some d → V.tensor d.name
  fixed : ∀ d, p.dst? a = some d → ∀ k ∈ d.fixed, 0 ≤ k
  nodes : ∀ n ∈ (p.tree a.expr).labels, V.Covers n

theorem assignment_ensures (opts : EmitOptions) {a : Assignment} (ha : Within p V a) :
    Ensures V (assignment p opts a) fun _ => True := by
  refine Ensures.get.bind fun w _ => (Ensures.demand _).bind fun dst hdst => ?_
  refine (Ensures.demand _).bind fun root _ => (resultIndices_ensures _ _ _).bind fun result hresult => ?_
  split
  · split
    · exact .pure trivial
    · exact (Ensures.demand _).bind fun text _ => .fail _
  refine (openFlat_ensures p hresult opts a).bind fun _ _ => ?_
  refine (body_ensures p _ (ha.tensor dst hdst) (ha.fixed dst hdst) hresult ha.nodes).bind fun _ _ => ?_
  refine .modify fun w hw => ?_
  have hclosed := hw.closeTo
  exact ⟨(hclosed _).loops, (hclosed _).bodies, (hclosed _).done, nofun⟩

theorem assignments_ensures (opts : EmitOptions) {as : List Assignment} (has : ∀ a ∈ as, Within p V a)
    (i : Nat) : Ensures V (assignments p opts i as) fun _ => True := by
  induction as generalizing i with
  | nil => exact .pure trivial
  | cons a as ih =>
    intro w b w' h hw
    change (inContext _ (assignment p opts a w) >>= fun r => assignments p opts (i + 1) as r.2) = _ at h
    cases hrun : assignment p opts a w with
    | error e =>
      rw [hrun] at h
      cases h
    | ok r =>
      rw [hrun] at h
      obtain ⟨hw₁, -⟩ := assignment_ensures p opts (has a (.head _)) w _ _ hrun hw
      exact ih (fun a ha => has a (List.mem_cons_of_mem _ ha)) (i + 1) _ _ _ h hw₁

/-- The code of a program is over the vocabulary of its assignments. -/
theorem program_ensures (opts : EmitOptions) (has : ∀ a ∈ p.assignments, Within p V a) :
    Ensures V (program p opts) (Stmt.UsesAll V) := by
  have hrest : Ensures V (do
      assignments p opts 0 p.assignments
      modify (·.closeTo 0)
      return (← MonadState.get).done) (Stmt.UsesAll V) := by
    refine (assignments_ensures p opts has 0).bind fun _ _ => ?_
    refine Ensures.bind (.modify fun w hw => hw.closeTo 0) fun _ _ => ?_
    exact Ensures.get.bind fun w hw => .pure hw.done
  unfold program
  cases p.fusion with
  | none => exact hrest
  | some extent => exact Ensures.bind (.modify fun w hw => hw.openLoop (.inl rfl) extent) fun _ _ => hrest

theorem uses_of_program {opts : EmitOptions} (has : ∀ a ∈ p.assignments, Within p V a) {body : List Stmt}
    {w : Writer} (h : program p opts {} = .ok (body, w)) : Stmt.UsesAll V body :=
  (program_ensures p opts has _ _ _ h
    ⟨fun _ hf => absurd hf List.not_mem_nil, fun _ hf => absurd hf List.not_mem_nil, trivial, nofun⟩).2

end Emit

/-- An assignment is within a vocabulary that has the declared tensors and the constants. -/
theorem Emit.within {N : NodeClass} {p : Program} {find : Symbols} {a : Assignment} {c : Clause}
    (h : p.Places a c) (hfits : c.Fits N find) (htensor : ∀ name s, find name = some s → V.tensor name)
    (hliteral : ∀ n ∈ (p.tree a.expr).labels, n.kind = .constant → V.literal n.value) : Emit.Within p V a := by
  obtain ⟨s, hs, hviews, -⟩ := hfits.declared
  refine ⟨fun d hd => ?_, fun d hd => ?_, ?_⟩
  · rw [h.dst?_eq] at hd
    obtain rfl := Option.some.inj hd
    exact htensor _ s hs
  · rw [h.dst?_eq] at hd
    obtain rfl := Option.some.inj hd
    exact hviews.fixed_nonneg
  · intro n hn
    refine ⟨fun hk => ?_, fun hk => ?_, hliteral n hn⟩ <;> rw [h.tree_eq] at hn
    · obtain ⟨stored, hS, -⟩ := hfits.typed.views n hn hk
      obtain ⟨s, hs, -⟩ := Option.map_eq_some_iff.mp hS
      exact htensor _ s hs
    · obtain ⟨stored, -, hviews⟩ := hfits.typed.views n hn hk
      exact hviews.fixed_nonneg

end LoopNest.C
