import LoopNest.Proofs.Code.Flat
import LoopNest.Proofs.Code.Sums

/-!
# The code of assignments

Whatever an assignment looks like, its code does to the arrays what the clause does to their cells
(`assignment_spec`), and leaves the writer where it was: no loop is open but the one that all
assignments share, and names of temporaries are not used again. The code of a list of assignments
follows (`assignments_spec`).
-/

namespace LoopNest.C

/-! ## Names of result indices -/

/-- The name of an index of a result. -/
def resultName (t : Nat) : String := NameSupply.numbered "i" t

theorem resultName_injective : Function.Injective resultName := fun _ _ =>
  NameSupply.numbered_injective "i"

/-- The names of the indices of a result, from position `i` on; `next` is the first unused number. -/
def resultNames (axis : Option Nat) (next i : Nat) : Shape → List String
  | [] => []
  | _ :: ds =>
    if axis = some i then Emit.sharedIndex :: resultNames axis next (i + 1) ds
    else resultName next :: resultNames axis (next + 1) (i + 1) ds

theorem resultNames_cons (axis : Option Nat) (next i : Nat) (d : Int) (ds : Shape) :
    resultNames axis next i (d :: ds) =
      if axis = some i then Emit.sharedIndex :: resultNames axis next (i + 1) ds
      else resultName next :: resultNames axis (next + 1) (i + 1) ds :=
  rfl

/-- Numbered names of different families are different. -/
theorem numbered_ne {r s : String} (h : r.toList.head? ≠ s.toList.head?)
    (hr : r.toList ≠ []) (hs : s.toList ≠ []) (t t' : Nat) :
    NameSupply.numbered r t ≠ NameSupply.numbered s t' := by
  intro heq
  have hchars := congrArg (·.toList.head?) heq
  simp only [NameSupply.numbered, String.toList_append, List.head?_append_of_ne_nil _ hr,
    List.head?_append_of_ne_nil _ hs] at hchars
  exact h hchars

theorem resultName_ne_sharedIndex (t : Nat) : resultName t ≠ Emit.sharedIndex :=
  numbered_ne (s := "f") (by decide) (by decide) (by decide) t 0

theorem sumName_ne_sharedIndex (t : Nat) : sumName t ≠ Emit.sharedIndex :=
  numbered_ne (s := "f") (by decide) (by decide) (by decide) t 0

theorem sumName_ne_resultName (t t' : Nat) : sumName t ≠ resultName t' :=
  numbered_ne (by decide) (by decide) (by decide) t t'

section

variable {axis : Option Nat} {next i : Nat} {shape : Shape}

theorem length_resultNames (axis : Option Nat) (next i : Nat) (shape : Shape) :
    (resultNames axis next i shape).length = shape.length := by
  induction shape generalizing next i with
  | nil => rfl
  | cons d ds ih =>
    rw [resultNames_cons]
    split <;> rw [List.length_cons, List.length_cons, ih]

theorem mem_resultNames {name : String} (h : name ∈ resultNames axis next i shape) :
    (name = Emit.sharedIndex ∧ ∃ k, i ≤ k ∧ axis = some k) ∨ ∃ t, next ≤ t ∧ name = resultName t := by
  induction shape generalizing next i with
  | nil => cases h
  | cons d ds ih =>
    rw [resultNames_cons] at h
    split at h
    · rename_i haxis
      rcases List.mem_cons.mp h with rfl | h
      · exact .inl ⟨rfl, i, Nat.le_refl i, haxis⟩
      · exact (ih h).imp_left fun ⟨hname, k, hk, haxis⟩ => ⟨hname, k, by omega, haxis⟩
    · rcases List.mem_cons.mp h with rfl | h
      · exact .inr ⟨next, Nat.le_refl next, rfl⟩
      · exact (ih h).imp (fun ⟨hname, k, hk, haxis⟩ => ⟨hname, k, by omega, haxis⟩)
          fun ⟨t, ht, hname⟩ => ⟨t, by omega, hname⟩

theorem nodup_resultNames (axis : Option Nat) (next i : Nat) (shape : Shape) :
    (resultNames axis next i shape).Nodup := by
  induction shape generalizing next i with
  | nil => exact .nil
  | cons d ds ih =>
    rw [resultNames_cons]
    split
    · rename_i haxis
      refine List.nodup_cons.mpr ⟨fun hmem => ?_, ih _ _⟩
      rcases mem_resultNames hmem with ⟨-, k, hk, haxis'⟩ | ⟨t, -, hname⟩
      · rw [haxis] at haxis'
        cases haxis'
        omega
      · exact resultName_ne_sharedIndex t hname.symm
    · refine List.nodup_cons.mpr ⟨fun hmem => ?_, ih _ _⟩
      rcases mem_resultNames hmem with ⟨hname, -⟩ | ⟨t, ht, hname⟩
      · exact resultName_ne_sharedIndex next hname
      · have := resultName_injective hname
        omega

/-- The shared index names the axis of the shared loop, and no other. -/
theorem eq_sharedIndex_iff {k : Nat} {name : String}
    (h : (resultNames axis next i shape)[k]? = some name) :
    name = Emit.sharedIndex ↔ axis = some (i + k) := by
  induction shape generalizing next i k with
  | nil => cases h
  | cons d ds ih =>
    rw [resultNames_cons] at h
    split at h
    · rename_i haxis
      cases k with
      | zero =>
        cases h
        simp [haxis]
      | succ k =>
        rw [ih h, Nat.add_right_comm]
        rfl
    · rename_i haxis
      cases k with
      | zero =>
        cases h
        simp [haxis, resultName_ne_sharedIndex]
      | succ k =>
        rw [ih h, Nat.add_right_comm]
        rfl

/-- Naming the axes of a result only changes the extents of indices that were not used before. -/
theorem resultIndices_spec (axis : Option Nat) (i : Nat) (shape : Shape) (w : Writer) :
    ∃ w', Emit.resultIndices axis i shape w =
        .ok ((resultNames axis w.nextIndex i shape).map .loop, w') ∧
      w'.draft = w.draft ∧ w'.flat = w.flat ∧ w'.nextTemp = w.nextTemp ∧
      (∀ name, (∀ t, w.nextIndex ≤ t → name ≠ resultName t) → w'.extentOf name = w.extentOf name) ∧
      ∀ (k : Nat) name d, (resultNames axis w.nextIndex i shape)[k]? = some name → shape[k]? = some d →
        name = Emit.sharedIndex ∨ w'.extentOf name = d := by
  induction shape generalizing i w with
  | nil => exact ⟨w, rfl, rfl, rfl, rfl, fun _ _ => rfl, fun _ _ _ h => by cases h⟩
  | cons d ds ih =>
    rw [resultNames_cons]
    by_cases haxis : axis = some i
    · obtain ⟨w', hrun, hdraft, hflat, htemp, hother, hextents⟩ := ih (i + 1) w
      rw [if_pos haxis]
      refine ⟨w', ?_, hdraft, hflat, htemp, hother, fun k name e hk he => ?_⟩
      · rw [Emit.resultIndices, if_pos haxis]
        exact (Emit.bind_ok hrun).trans rfl
      · cases k with
        | zero =>
          cases hk
          exact .inl rfl
        | succ k => exact hextents k name e hk he
    · let w₁ := { w with nextIndex := w.nextIndex + 1, extents := (resultName w.nextIndex, d) :: w.extents }
      obtain ⟨w', hrun, hdraft, hflat, htemp, hother, hextents⟩ := ih (i + 1) w₁
      rw [if_neg haxis]
      refine ⟨w', ?_, hdraft, hflat, htemp, fun name hname => ?_, fun k name e hk he => ?_⟩
      · rw [Emit.resultIndices, if_neg haxis]
        refine (Emit.bind_ok Emit.get_run).trans ((Emit.bind_ok (Emit.modify_run _)).trans ?_)
        exact (Emit.bind_ok hrun).trans rfl
      · rw [hother name fun t ht => hname t (Nat.le_of_succ_le ht)]
        have hne := beq_eq_false_iff_ne.mpr (hname w.nextIndex (Nat.le_refl _))
        rw [Writer.extentOf, Writer.extentOf, List.lookup_cons, hne]
      · cases k with
        | zero =>
          cases hk
          cases he
          refine .inr ?_
          rw [hother _ fun t ht heq => ?_]
          · simp [Writer.extentOf, w₁]
          · have := resultName_injective heq
            have : w.nextIndex + 1 ≤ t := ht
            omega
        | succ k => exact hextents k name e hk he

end

/-! ## Between assignments -/

/-- Between assignments, no loop is open but the shared one. -/
structure Outer (w : Writer) : Prop where
  flat : w.flat = none
  only : ∀ name, w.isOpen name = true → name = Emit.sharedIndex

variable {α : Type}

/-- The scope between assignments, at a value of the shared loop. -/
structure Between (w : Writer) (g : Int) (f : Locals α) : Prop where
  bound : ∀ name, w.isOpen name = true ↔ (f.indices.lookup name).isSome = true
  shared : w.isOpen Emit.sharedIndex = true → f.indices.lookup Emit.sharedIndex = some g
  fresh : ∀ n, w.nextTemp ≤ n → f.temps.lookup n = none

theorem Draft.any_writeAll (d : Draft) (ss : List Stmt) (name : String) :
    (d.writeAll ss).1.any (·.index == name) = d.1.any (·.index == name) := by
  induction ss generalizing d with
  | nil => rfl
  | cons s ss ih =>
    refine (ih (d.write s)).trans ?_
    obtain ⟨frames, done⟩ := d
    cases frames <;> rfl

theorem isOpen_writeAll {w w' : Writer} {l : List Stmt} (h : w'.draft = w.draft.writeAll l)
    (name : String) : w'.isOpen name = w.isOpen name :=
  (congrArg (fun d : Draft => d.1.any (·.index == name)) h).trans (w.draft.any_writeAll l name)

/-- The writer at the start of a program. -/
def Writer.start : Option Int → Writer
  | none => {}
  | some extent => ({} : Writer).openLoop Emit.sharedIndex extent

theorem outer_start (fusion : Option Int) : Outer (Writer.start fusion) := by
  cases fusion with
  | none => exact ⟨rfl, fun name h => by cases h⟩
  | some extent =>
    refine ⟨rfl, fun name h => ?_⟩
    rw [Writer.start, Writer.isOpen_openLoop, Bool.or_eq_true, beq_iff_eq] at h
    exact h.elim Eq.symm fun h => by cases h

theorem between_plain : Between (α := α) (Writer.start none) 0 {} :=
  ⟨fun _ => ⟨fun h => (by cases h), fun h => (by cases h)⟩, fun h => (by cases h), fun _ _ => rfl⟩

theorem between_shared (extent g : Int) :
    Between (α := α) (Writer.start (some extent)) g { indices := [(Emit.sharedIndex, g)] } where
  bound name := by
    rw [Writer.start, Writer.isOpen_openLoop, List.lookup_cons, List.lookup_nil]
    by_cases hname : name = Emit.sharedIndex
    · subst hname
      simp
    · simp [beq_eq_false_iff_ne.mpr hname, beq_eq_false_iff_ne.mpr (Ne.symm hname), Writer.isOpen]
  shared _ := by simp
  fresh _ _ := rfl

section

variable {extent : Int}

/-- In the scope between assignments, the indices that are left are those at the value of the shared
loop. -/
theorem atLoops_iff {w : Writer} {g : Int} {f : Locals α} {axis : Option Nat} {next : Nat} {shape : Shape}
    (hw : Outer w) (hshared : axis.isSome = true → w.isOpen Emit.sharedIndex = true)
    (hwithin : ∀ k ∈ axis, shape[k]? = some extent) (hf : Between w g f) (idx : List Int) :
    AtLoops (resultNames axis next 0 shape) shape f.indices idx ↔ InRange shape idx ∧ AtShared axis g idx := by
  refine and_congr_right fun _ => ⟨fun h k hk => ?_, fun h k name v hk hv => ?_⟩
  · obtain ⟨hlt, -⟩ := List.getElem?_eq_some_iff.mp (hwithin k hk)
    have hname := List.getElem?_eq_getElem (l := resultNames axis next 0 shape)
      (by rwa [length_resultNames])
    have hindex := (eq_sharedIndex_iff hname).mpr (by rwa [Nat.zero_add])
    exact h k _ g (hname.trans (congrArg some hindex)) (hf.shared (hshared (by rw [hk]; rfl)))
  · have hopen := (hf.bound name).mpr (by rw [hv]; rfl)
    obtain rfl := hw.only name hopen
    rw [hf.shared hopen] at hv
    cases hv
    exact h k (by rw [(eq_sharedIndex_iff hk).mp rfl, Nat.zero_add]; rfl)

theorem exists_atShared {axis : Option Nat} {shape : Shape} {g : Int} (hpos : ∀ d ∈ shape, 0 < d)
    (hwithin : ∀ k ∈ axis, shape[k]? = some extent) (lo : 0 ≤ g) (hi : g < extent) :
    ∃ idx, InRange shape idx ∧ AtShared axis g idx := by
  obtain ⟨idx, hidx⟩ := exists_inRange hpos
  cases axis with
  | none => exact ⟨idx, hidx, atShared_none g idx⟩
  | some k =>
    refine ⟨idx.set k g, hidx.set (hwithin k rfl) lo hi, fun j hj => ?_⟩
    cases hj
    refine List.getElem?_set_self ?_
    rw [hidx.length_eq]
    exact (List.getElem?_eq_some_iff.mp (hwithin k rfl)).1

end

variable [Scalar α]

/-- From one writer to the other, statements are written that do to the cells of the arrays what
`step` does at the value of the shared loop. -/
structure Advances (layout : Layout) (S : Shapes) (extent : Int) (step : Int → Cells α → Cells α)
    (w w' : Writer) : Prop where
  outer : Outer w → Outer w'
  temps : w.nextTemp ≤ w'.nextTemp
  statements : ∃ ss, w'.draft = w.draft.writeAll ss ∧ (∀ n v, .declare n v ∈ ss → n < w'.nextTemp) ∧
    ∀ g (f : Locals α) A, Between w g f → 0 ≤ g → g < extent → Addressable S → Holds S A →
      ∃ f' A', runBlock f A ss = some (f', A') ∧ Between w' g f' ∧ Holds S A' ∧
        Cells.Agree S (cellsIn layout S A') (step g (cellsIn layout S A))

namespace Advances

variable {layout : Layout} {S : Shapes} {extent : Int} {step step' : Int → Cells α → Cells α}
  {w w₁ w₂ : Writer}

/-- One after the other. -/
theorem trans (h : Advances layout S extent step w w₁) (h' : Advances layout S extent step' w₁ w₂)
    (hagree : ∀ {g σ τ}, Cells.Agree S σ τ → Cells.Agree S (step' g σ) (step' g τ)) :
    Advances layout S extent (fun g => step' g ∘ step g) w w₂ where
  outer := h'.outer ∘ h.outer
  temps := Nat.le_trans h.temps h'.temps
  statements := by
    obtain ⟨ss, hdraft, htemps, hrun⟩ := h.statements
    obtain ⟨ss', hdraft', htemps', hrun'⟩ := h'.statements
    refine ⟨ss ++ ss', ?_, fun n v hmem => ?_, fun g f A hf lo hi hS hholds => ?_⟩
    · rw [hdraft', hdraft, Draft.writeAll_append]
    · rcases List.mem_append.mp hmem with hmem | hmem
      · exact Nat.lt_of_lt_of_le (htemps n v hmem) h'.temps
      · exact htemps' n v hmem
    · obtain ⟨f₁, A₁, hrun₁, hf₁, hholds₁, hcells₁⟩ := hrun g f A hf lo hi hS hholds
      obtain ⟨f₂, A₂, hrun₂, hf₂, hholds₂, hcells₂⟩ := hrun' g f₁ A₁ hf₁ lo hi hS hholds₁
      refine ⟨f₂, A₂, ?_, hf₂, hholds₂, hcells₂.trans (hagree hcells₁)⟩
      rw [runBlock_append, hrun₁]
      exact hrun₂

/-- Nothing is written. -/
theorem same (hdraft : w₁.draft = w.draft) (hflat : w₁.flat = w.flat) (htemp : w₁.nextTemp = w.nextTemp)
    (hstep : ∀ g σ, step g σ = σ) : Advances layout S extent step w w₁ := by
  have hopen : ∀ name, w₁.isOpen name = w.isOpen name := isOpen_writeAll (l := []) hdraft
  refine ⟨fun h => ⟨hflat.trans h.flat, fun name ho => h.only name (hopen name ▸ ho)⟩,
    Nat.le_of_eq htemp.symm, [], hdraft, fun _ _ h => (by cases h), fun g f A hf _ _ _ hholds =>
      ⟨f, A, rfl, ⟨fun name => ?_, fun ho => hf.shared (hopen _ ▸ ho), fun n hn => hf.fresh n (htemp ▸ hn)⟩,
        hholds, ?_⟩⟩
  · rw [hopen]
    exact hf.bound name
  · rw [hstep]
    exact .refl _

end Advances

/-! ## One assignment -/

variable {K : ShapeClass} {find : Symbols} {p : Program} {c : Clause} {a : Assignment} {layout : Layout}
  {extent : Int}

/-- From one writer to the other, code is written that computes the elements of an assignment, in
the scopes between assignments. -/
structure Computes (layout : Layout) (S : Shapes) (extent : Int) (a : Assignment) (c : Clause)
    (w w' : Writer) (α : Type) [Scalar α] : Prop where
  temps : w.nextTemp ≤ w'.nextTemp
  code : ∃ (R : Region) (steps : List Step), w'.draft = w.draft.addAll steps ∧
    (∀ n v, .put (.declare n v) ∈ steps → n < w'.nextTemp) ∧
    ∀ g (f : Locals α), Between w g f → 0 ≤ g → g < extent → Addressable S →
      (∀ idx, R.At f.indices idx ↔ InRange c.target.shape idx ∧ AtShared a.fuseAxis g idx) ∧
      ∀ σ, (clauseScene layout S c R).Completes σ steps f

/-- Once the loops of an assignment are closed, its elements have been computed. -/
theorem Computes.advances {w w' : Writer} (h : Computes layout find.shapes extent a c w w' α) :
    Advances (α := α) layout find.shapes extent (fun g => c.stepOn (AtShared a.fuseAxis g)) w
      { w'.closeTo w.frames.length with flat := none } := by
  obtain ⟨R, steps, hdraft, htemps, hcode⟩ := h.code
  have hclosed : ({ w'.closeTo w.frames.length with flat := none } : Writer).draft =
      w.draft.writeAll (nest steps) := Writer.draft_closeTo hdraft
  have hopen := isOpen_writeAll hclosed
  have htemp : ({ w'.closeTo w.frames.length with flat := none } : Writer).nextTemp = w'.nextTemp := by
    rw [Writer.closeTo_rest]
  have hdeclared : ∀ n v, .declare n v ∈ nest steps → n < w'.nextTemp := by
    intro n v hmem
    rcases mem_nest hmem with hmem | ⟨_, _, _, heq⟩
    · exact htemps n v hmem
    · cases heq
  refine ⟨fun hw => ⟨rfl, fun name ho => hw.only name (hopen name ▸ ho)⟩, htemp.symm ▸ h.temps,
    nest steps, hclosed, htemp.symm ▸ hdeclared, fun g f A hf lo hi hS hholds => ?_⟩
  obtain ⟨hat, hcompletes⟩ := hcode g f hf lo hi hS
  obtain ⟨A', hrun, hholds', hcells⟩ := hcompletes (cellsIn layout find.shapes A) A
    ⟨hS, hholds, fun _ _ _ _ _ _ => rfl⟩
  rw [runAll_eq, Option.map_eq_some_iff] at hrun
  obtain ⟨⟨f', A'⟩, hrun, rfl⟩ := hrun
  obtain ⟨hindices, hkept⟩ := runBlock_scope hrun
  refine ⟨f', A', hrun, ⟨fun name => ?_, fun ho => ?_, fun n hn => ?_⟩, hholds',
    fun name stored sub hstored hsub => ?_⟩
  · rw [hopen, hindices]
    exact hf.bound name
  · rw [hindices]
    exact hf.shared (hopen _ ▸ ho)
  · rw [htemp] at hn
    refine hkept n (hf.fresh n (Nat.le_trans h.temps hn)) fun v hmem => ?_
    have := hdeclared n v hmem
    omega
  · obtain ⟨hnew, hold⟩ := hcells name stored sub hstored hsub
    by_cases hname : name = c.name
    · subst hname
      cases hown : c.target.own? sub with
      | none =>
        rw [Clause.stepOn_not_own hown, hold]
        rintro idx ⟨-, hown'⟩
        rw [hown] at hown'
        cases hown'
      | some idx =>
        rw [Clause.stepOn_own hown]
        by_cases hshared : AtShared a.fuseAxis g idx
        · rw [if_pos hshared]
          exact hnew idx ⟨rfl, hown⟩ ((hat idx).mpr ⟨(Node.own?_eq_some_iff.mp hown).2, hshared⟩)
        · rw [if_neg hshared, hold]
          rintro idx' ⟨-, hown'⟩ hat'
          rw [hown] at hown'
          cases hown'
          exact hshared ((hat idx).mp hat').2
    · rw [Clause.stepOn_of_ne hname, hold]
      rintro idx ⟨rfl, -⟩
      exact absurd rfl hname

namespace Codable

variable {S : Shapes} (h : Codable K p S c)
include h

/-- An assignment with a loop for each axis of its result. -/
theorem loops_spec {w : Writer} (hw : Outer w)
    (hshared : a.fuseAxis.isSome = true → w.isOpen Emit.sharedIndex = true)
    (hwithin : ∀ k ∈ a.fuseAxis, c.target.shape[k]? = some extent) {next : Nat}
    (hextents : ∀ (k : Nat) name d, (resultNames a.fuseAxis next 0 c.target.shape)[k]? = some name →
      c.target.shape[k]? = some d → name = Emit.sharedIndex ∨ w.extentOf name = d) :
    ∃ w', Emit.body p layout c.target c.tree
        ((resultNames a.fuseAxis next 0 c.target.shape).map .loop) w = .ok ((), w') ∧
      Computes layout S extent a c w w' α := by
  generalize hnames : resultNames a.fuseAxis next 0 c.target.shape = names at hextents
  have hlen : names.length = c.target.shape.length := hnames ▸ length_resultNames _ _ _ _
  have hnd : names.Nodup := hnames ▸ nodup_resultNames _ _ _ _
  have hreach : (loopScene (α := α) layout S c names).Reachable names w := by
    refine h.reachable hnd hlen hw.flat fun k name d hk hd => ?_
    refine (hextents k name d hk hd).imp_left fun hname => ?_
    rw [← hnames] at hk
    exact hname ▸ hshared (by rw [(eq_sharedIndex_iff hk).mp hname]; rfl)
  obtain ⟨w', hrun, htemps, steps, hdraft, hdeclared, hsteps⟩ : ∃ w', Emit.body p layout c.target
      c.tree (names.map .loop) w = .ok ((), w') ∧ (loopScene (α := α) layout S c names).Writes w w' := by
    by_cases hkind : c.tree.kind = .contraction
    · refine h.contraction_spec hkind hnd hlen (fun t hmem => ?_) hreach fun t => ?_
      · rw [← hnames] at hmem
        rcases mem_resultNames hmem with ⟨hname, -⟩ | ⟨t', -, hname⟩
        · exact sumName_ne_sharedIndex t hname
        · exact sumName_ne_resultName t t' hname
      · exact Bool.eq_false_iff.mpr fun ho => sumName_ne_sharedIndex t (hw.only _ ho)
    · exact h.statement_spec hkind hlen hreach
  refine ⟨w', hrun, htemps, loopRegion names c.target.shape, steps, hdraft, hdeclared,
    fun g f hf lo hi hS => ?_⟩
  have hat : ∀ idx, AtLoops names c.target.shape f.indices idx ↔ _ :=
    hnames ▸ atLoops_iff hw hshared hwithin hf
  refine ⟨hat, fun σ => hsteps σ f ⟨hf.bound, hf.fresh, ?_⟩⟩
  obtain ⟨idx, hidx⟩ := exists_atShared h.pos hwithin lo hi
  exact ⟨idx, (hat idx).mpr hidx⟩

/-- An assignment that one flat loop computes. -/
theorem flatLoop_spec (hflat : Coalesced a c) {w : Writer} (hw : Outer w) {index : String}
    (hindex : index ≠ Emit.sharedIndex) {result : List Index} (hresult : result ≠ []) :
    ∃ w', Emit.body p .rowMajor c.target c.tree result
        { w.openLoop index c.target.shape.size with flat := some index } = .ok ((), w') ∧
      Computes .rowMajor S extent a c w w' α := by
  let w₁ : Writer := { w.openLoop index c.target.shape.size with flat := some index }
  have hopen : ∀ name, w₁.isOpen name = (index == name || w.isOpen name) := fun _ => rfl
  obtain ⟨w', hrun, htemps, steps, hdraft, hdeclared, hsteps⟩ := h.flat_spec (α := α) hflat hresult
    (w := w₁) ⟨rfl, by rw [hopen, beq_self_eq_true, Bool.true_or]⟩
  refine ⟨w', hrun, htemps, flatRegion index c.target.shape, .enter index c.target.shape.size :: steps,
    hdraft, fun n v hmem => ?_, fun g f hf lo hi hS => ?_⟩
  · rcases List.mem_cons.mp hmem with heq | hmem
    · cases heq
    · exact hdeclared n v hmem
  have hnone : f.indices.lookup index = none := Option.not_isSome_iff_eq_none.mp fun hsome =>
    hindex (hw.only index ((hf.bound index).mpr hsome))
  obtain ⟨stored, hstored, hviews⟩ := h.target
  obtain rfl := hflat.target.stored_eq hviews
  have hsize : c.target.shape.size = Shape.count c.target.shape := by
    obtain ⟨hpos, hcount⟩ := hS c.name _ hstored
    exact Shape.size_eq_count hpos (by omega)
  obtain ⟨idx, hidx⟩ := exists_inRange h.pos
  obtain ⟨hpoint, hcomplete⟩ := flat_divides (α := α) h.pos hstored index f hnone
    ⟨idx, (flatRegion_none hnone).mpr hidx⟩
  refine ⟨fun idx => ?_, fun σ => ?_⟩
  · rw [flatRegion_none hnone, hflat.alone]
    exact (and_iff_left (atShared_none g idx)).symm
  · rw [hsize]
    refine hcomplete σ steps fun j lo hi => hsteps σ _ ⟨fun name => ?_, hf.fresh, hpoint j lo hi⟩
    rw [hopen, List.lookup_cons, Bool.or_eq_true, beq_iff_eq]
    by_cases hname : name = index
    · subst hname
      simp
    · rw [beq_eq_false_iff_ne.mpr hname, hf.bound]
      exact or_iff_right (Ne.symm hname)

end Codable

/-- An assignment of a tensor to itself changes nothing. -/
theorem stepOn_self (h : c.tree.Aligned c.target) {i : NodeId} {n : Node} {ts : List Tree}
    (htree : c.tree = .node i n ts) (hk : n.kind = .identifier) (hname : n.name = c.name)
    (V : List Int → Prop) [DecidablePred V] (σ : Cells α) :
    n.fixed = c.target.fixed ∧ n.perm = c.target.perm ∧ c.stepOn V σ = σ := by
  rw [htree] at h
  obtain ⟨hfixed, hperm⟩ : n.fixed = c.target.fixed ∧ n.perm = c.target.perm := by
    cases h with
    | apart h =>
      rw [Tree.names_node, if_pos hk, hname] at h
      exact absurd (List.mem_append_left _ (.head _)) h
    | ident _ hfixed hperm => exact ⟨hfixed, hperm⟩
    | pointwise hne => exact absurd hk hne
  refine ⟨hfixed, hperm, funext fun name => funext fun sub => ?_⟩
  by_cases heq : name = c.name
  · subst heq
    cases hown : c.target.own? sub with
    | none => rw [Clause.stepOn_not_own hown]
    | some idx =>
      have hsub : n.subscript id idx = some sub := by
        rw [Node.subscript, hfixed, hperm]
        exact (Node.own?_eq_some_iff.mp hown).1
      rw [Clause.stepOn_own hown, htree, Tree.eval_ident hk, loadAt, hname, hsub]
      exact ite_self _
  · rw [Clause.stepOn_of_ne heq]

/-- The code of the elements of an assignment, in a flat loop or in one loop for each axis. -/
theorem Codable.code_spec (h : Codable K p find.shapes c) (hplaces : p.Places a c) (hfits : c.Fits K find)
    (opts : EmitOptions) {w : Writer} (hw : Outer w)
    (hshared : a.fuseAxis.isSome = true → w.isOpen Emit.sharedIndex = true)
    (hwithin : ∀ k ∈ a.fuseAxis, c.target.shape[k]? = some extent) {next : Nat}
    (hextents : ∀ (k : Nat) name d, (resultNames a.fuseAxis next 0 c.target.shape)[k]? = some name →
      c.target.shape[k]? = some d → name = Emit.sharedIndex ∨ w.extentOf name = d) :
    ∃ w₁ w₂, Emit.openFlat p opts a c.target
        ((resultNames a.fuseAxis next 0 c.target.shape).map .loop) w = .ok ((), w₁) ∧
      Emit.body p opts.layout c.target c.tree
        ((resultNames a.fuseAxis next 0 c.target.shape).map .loop) w₁ = .ok ((), w₂) ∧
      Computes opts.layout find.shapes extent a c w w₂ α := by
  obtain ⟨w', hrun, hcomputes⟩ := h.loops_spec (α := α) hw hshared hwithin hextents
  obtain ⟨b, hb, hflat⟩ := coalescible_spec hplaces hfits
  by_cases hopts : (opts.coalesce && decide (opts.layout = .rowMajor)) = true
  · cases b with
    | false =>
      refine ⟨w, w', ?_, hrun, hcomputes⟩
      unfold Emit.openFlat
      rw [if_pos hopts]
      exact (Emit.bind_ok (Emit.demand_run hb)).trans rfl
    | true =>
      have hcoalesced := hflat rfl
      have hlayout : opts.layout = .rowMajor := by
        rw [Bool.and_eq_true, decide_eq_true_eq] at hopts
        exact hopts.2
      obtain ⟨d, ds, hshape⟩ := List.exists_cons_of_length_pos (Nat.lt_of_lt_of_le Nat.zero_lt_two
        hcoalesced.rank)
      have hnames : resultNames a.fuseAxis next 0 c.target.shape =
          resultName next :: resultNames a.fuseAxis (next + 1) 1 ds := by
        rw [hshape, resultNames, if_neg (by simp [hcoalesced.alone])]
      rw [hnames, List.map_cons, hlayout]
      obtain ⟨w₂, hbody, hflatLoop⟩ := h.flatLoop_spec (α := α) hcoalesced hw
        (resultName_ne_sharedIndex next) (List.cons_ne_nil _ _)
      refine ⟨_, w₂, ?_, hbody, hflatLoop⟩
      rw [Emit.openFlat, if_pos hopts]
      exact (Emit.bind_ok (Emit.demand_run hb)).trans rfl
  · refine ⟨w, w', ?_, hrun, hcomputes⟩
    unfold Emit.openFlat
    rw [if_neg hopts]
    rfl

/-- What is written for an assignment once the axes of its result have names. -/
theorem assignment_start (hplaces : p.Places a c) (opts : EmitOptions) {id : NodeId} {n : Node}
    {ts : List Tree} (htree : c.tree = .node id n ts) {result : List Index} {w w₁ : Writer}
    (hresult : Emit.resultIndices a.fuseAxis 0 c.target.shape w = .ok (result, w₁)) :
    Emit.assignment p opts a w = (if n.kind = .identifier && n.name == c.target.name then
      if n.fixed = c.target.fixed ∧ n.perm = c.target.perm then (return () : Emit Unit) else do
        let text ← Emit.demand (p.renderAssignment a)
        Emit.fail (text ++ " reads its own storage with a different mapping")
      else do
        Emit.openFlat p opts a c.target result
        Emit.body p opts.layout c.target c.tree result
        modify fun w' => { w'.closeTo w.frames.length with flat := none }) w₁ := by
  rw [Emit.assignment]
  refine (Emit.bind_ok Emit.get_run).trans ?_
  refine (Emit.bind_ok (Emit.demand_run hplaces.dst?_eq)).trans ?_
  refine (Emit.bind_ok (Emit.demand_run (hplaces.node?_root htree))).trans ((Emit.bind_ok hresult).trans ?_)
  rw [hplaces.tree_eq]

/-- The code of an assignment does to the arrays what its clause does to the cells. -/
theorem assignment_spec (h : Codable K p find.shapes c) (hplaces : p.Places a c) (hfits : c.Fits K find)
    (opts : EmitOptions) {w : Writer} (hw : Outer w)
    (hshared : a.fuseAxis.isSome = true → w.isOpen Emit.sharedIndex = true)
    (hwithin : ∀ k ∈ a.fuseAxis, c.target.shape[k]? = some extent) :
    ∃ w', Emit.assignment p opts a w = .ok ((), w') ∧ Advances (α := α) opts.layout find.shapes extent
      (fun g => c.stepOn (AtShared a.fuseAxis g)) w w' := by
  obtain ⟨id, n, ts, htree⟩ := h.typed.exists_node
  obtain ⟨w₁, hrun₁, hdraft₁, hflat₁, htemp₁, -, hextents⟩ :=
    resultIndices_spec a.fuseAxis 0 c.target.shape w
  have hopen₁ : ∀ name, w₁.isOpen name = w.isOpen name := isOpen_writeAll (l := []) hdraft₁
  have hw₁ : Outer w₁ := ⟨hflat₁.trans hw.flat, fun name ho => hw.only name (hopen₁ name ▸ ho)⟩
  have hstart := assignment_start hplaces opts htree hrun₁
  by_cases hself : n.kind = .identifier ∧ n.name = c.name
  · obtain ⟨hfixed, hperm, -⟩ :=
      stepOn_self h.direct.aligned htree hself.1 hself.2 (fun _ => True) (fun _ _ => (none : Option α))
    refine ⟨w₁, ?_, .same hdraft₁ hflat₁ htemp₁ fun g σ =>
      (stepOn_self h.direct.aligned htree hself.1 hself.2 _ σ).2.2⟩
    rw [hstart, if_pos (by simp [hself]), if_pos ⟨hfixed, hperm⟩]
    rfl
  rw [if_neg (by simpa using hself)] at hstart
  obtain ⟨w₂, w₃, hopenFlat, hbody, hcomputes⟩ := h.code_spec (α := α) hplaces hfits opts hw₁
    (fun hsome => (hopen₁ _).trans (hshared hsome)) hwithin hextents
  refine ⟨_, hstart.trans ((Emit.bind_ok hopenFlat).trans ((Emit.bind_ok hbody).trans
    (Emit.modify_run _))), ?_⟩
  have hdepth : w.frames.length = w₁.frames.length := congrArg (fun d : Draft => d.1.length) hdraft₁.symm
  rw [hdepth]
  have hnamed : Advances (α := α) opts.layout find.shapes extent (fun _ σ => σ) w w₁ :=
    .same hdraft₁ hflat₁ htemp₁ fun _ _ => rfl
  exact hnamed.trans hcomputes.advances fun hagree => hagree.stepOn K.sized hfits

end LoopNest.C
