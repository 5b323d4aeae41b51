import LoopNest.Proofs.Code.Clauses
import LoopNest.Proofs.Execution

/-!
# The code of a contraction

In the innermost loop of its result, a contraction clears the element of the destination and then adds
a product to it in one more loop for each pair of contracted axes. Running these loops is the sum that
the tree stands for (`run_enters`): nothing that the products read is written in them, because the
tree of a contraction does not read its destination at all.
-/

namespace LoopNest.C

variable {α : Type} {layout : Layout} {S : Shapes} {c : Clause}

/-- The extents of an expression without contractions are extents of the tensors that it reads. -/
theorem Plain.extent_lt {C : Node → Prop} {t : Tree} (h : t.Typed C S) (hplain : Plain t)
    (hS : Addressable S) : ∀ d ∈ t.shape, d < 0x80000000 := by
  induction h with
  | @node id n ts _ hfits _ ih =>
    have hoperand : ∀ t ∈ ts, ∀ d ∈ t.shape, d < 0x80000000 := fun t ht => ih t ht fun m hm => by
      refine hplain m ?_
      rw [Tree.labels_node, List.mem_cons, List.mem_flatMap]
      exact .inr ⟨t, ht, hm⟩
    obtain ⟨hcontraction, hstack, htransposition⟩ := hplain n (by simp)
    have hshape : ∀ s ∈ ts.map Tree.shape, ∀ d ∈ s, d < 0x80000000 := by
      intro s hs
      obtain ⟨t, ht, rfl⟩ := List.mem_map.mp hs
      exact hoperand t ht
    intro d hd
    rw [Tree.shape_node] at hd
    generalize ts.map Tree.shape = shapes at hfits hshape
    cases hfits with
    | @identifier stored _ hstored hviews =>
      obtain ⟨hpos, hcount⟩ := hS n.name stored hstored
      exact Int.lt_of_le_of_lt (Shape.le_count hpos (hviews.mem_stored hd)) hcount
    | constant _ hs =>
      rw [hs] at hd
      cases hd
    | elementwise | scalarDiv => exact hshape _ (.head _) d hd
    | scalarMul => exact hshape _ (.tail _ (.head _)) d hd
    | product _ hs =>
      rw [hs] at hd
      rcases List.mem_append.mp hd with hd | hd
      · exact hshape _ (.head _) d hd
      · exact hshape _ (.tail _ (.head _)) d hd
    | contraction hk => exact absurd hk hcontraction
    | stack hk => exact absurd hk hstack
    | transposition hk => exact absurd hk htransposition

/-! ## Inside of nested loops -/

/-- The scope inside of nested loops, at given values of their indices. -/
def Locals.inside (f : Locals α) : List String → List Int → Locals α
  | name :: names, v :: vs => ({ f with indices := (name, v) :: f.indices }).inside names vs
  | _, _ => f

section

variable {f : Locals α} {names sums : List String} {es k : List Int}

theorem inRange_take {s es pt : List Int} (h : InRange (s ++ es) pt) :
    InRange s (pt.take s.length) ∧ InRange es (pt.drop s.length) := by
  have hleft := h.take s.length
  have hright := h.drop s.length
  rw [List.take_left] at hleft
  rw [List.drop_left] at hright
  exact ⟨hleft, hright⟩

theorem inside_temps (f : Locals α) (sums : List String) (k : List Int) :
    (f.inside sums k).temps = f.temps := by
  induction sums generalizing f k with
  | nil => rfl
  | cons name sums ih =>
    cases k with
    | nil => rfl
    | cons v k => exact ih _ k

theorem inside_isSome (hlen : k.length = sums.length) (name : String) :
    ((f.inside sums k).indices.lookup name).isSome = true ↔
      (f.indices.lookup name).isSome = true ∨ name ∈ sums := by
  induction sums generalizing f k with
  | nil => simp [Locals.inside]
  | cons sum sums ih =>
    cases k with
    | nil => cases hlen
    | cons v k =>
      rw [Locals.inside, ih (by simpa using hlen), List.lookup_cons, List.mem_cons]
      by_cases hname : name = sum
      · subst hname
        simp
      · simp [hname, beq_eq_false_iff_ne.mpr hname]

theorem within_inside (hsums : sums.Nodup) (hfresh : ∀ name ∈ sums, f.indices.lookup name = none) :
    f.Within (f.inside sums k) := by
  induction sums generalizing f k with
  | nil => exact .refl f
  | cons sum sums ih =>
    cases k with
    | nil => exact .refl f
    | cons v k =>
      obtain ⟨hnot, hsums⟩ := List.nodup_cons.mp hsums
      have hentered : f.Within { f with indices := (sum, v) :: f.indices } :=
        ⟨fun _ _ hv => lookup_cons_of_none (hfresh sum (.head _)) hv, fun _ _ h => h⟩
      refine hentered.trans (ih hsums fun name hname => ?_)
      have hne : name ≠ sum := fun heq => hnot (heq ▸ hname)
      rw [List.lookup_cons, beq_eq_false_iff_ne.mpr hne]
      exact hfresh name (.tail _ hname)

/-- The coordinates that loops are named for have the values of the loops. -/
theorem atLoops_inside {shape pt : List Int} {m : Nat} (hnd : names.Nodup) (hsums : sums.Nodup)
    (hfresh : ∀ name ∈ sums, f.indices.lookup name = none)
    (hnames : ∀ t name, sums[t]? = some name → names[m + t]? = some name)
    (hk : ∀ t v, k[t]? = some v → pt[m + t]? = some v) (h : AtLoops names shape f.indices pt) :
    AtLoops names shape (f.inside sums k).indices pt := by
  induction sums generalizing f k m with
  | nil => exact h
  | cons sum sums ih =>
    cases k with
    | nil => exact h
    | cons v k =>
      obtain ⟨hnot, hsums⟩ := List.nodup_cons.mp hsums
      refine ih (m := m + 1) hsums (fun name hname => ?_) (fun t name ht => ?_) (fun t v ht => ?_)
        ((atLoops_cons hnd (hnames 0 sum rfl) (hfresh sum (.head _))).mpr ⟨h, hk 0 v rfl⟩)
      · have hne : name ≠ sum := fun heq => hnot (heq ▸ hname)
        rw [List.lookup_cons, beq_eq_false_iff_ne.mpr hne]
        exact hfresh name (.tail _ hname)
      · rw [Nat.add_assoc, Nat.add_comm 1]
        exact hnames (t + 1) name ht
      · rw [Nat.add_assoc, Nat.add_comm 1]
        exact hk (t + 1) v ht

/-- Before the loops of a contraction are opened, any contracted indices are left. -/
theorem atLoops_append {shape idx : List Int} (hlen : names.length = shape.length)
    (hfresh : ∀ name ∈ sums, f.indices.lookup name = none) (h : AtLoops names shape f.indices idx)
    (hk : InRange es k) : AtLoops (names ++ sums) (shape ++ es) f.indices (idx ++ k) := by
  refine ⟨h.1.append hk, fun j name v hname hv => ?_⟩
  have hidx : idx.length = names.length := h.1.length_eq.trans hlen.symm
  by_cases hj : j < names.length
  · rw [List.getElem?_append_left hj] at hname
    rw [List.getElem?_append_left (hidx ▸ hj)]
    exact h.2 j name v hname hv
  · rw [List.getElem?_append_right (by omega)] at hname
    rw [hfresh name (List.mem_of_getElem? hname)] at hv
    cases hv

theorem atLoops_take {shape pt : List Int} {env : Env} (hlen : names.length = shape.length)
    (h : AtLoops (names ++ sums) (shape ++ es) env pt) : AtLoops names shape env (pt.take shape.length) := by
  refine ⟨(inRange_take h.1).1, fun j name v hname hv => ?_⟩
  have hj : j < names.length := (List.getElem?_eq_some_iff.mp hname).1
  rw [List.getElem?_take_of_lt (hlen ▸ hj)]
  exact h.2 j name v ((List.getElem?_append_left hj).trans hname) hv

/-- Once all loops of a result are open, one index is left. -/
theorem atLoops_unique {shape idx idx' : List Int} {env : Env} (hlen : names.length = shape.length)
    (hbound : ∀ name ∈ names, (env.lookup name).isSome = true) (h : AtLoops names shape env idx)
    (h' : AtLoops names shape env idx') : idx = idx' := by
  refine List.ext_getElem? fun j => ?_
  by_cases hj : j < names.length
  · obtain ⟨v, hv⟩ := Option.isSome_iff_exists.mp (hbound names[j] (List.getElem_mem hj))
    rw [h.2 j _ v (List.getElem?_eq_getElem hj) hv, h'.2 j _ v (List.getElem?_eq_getElem hj) hv]
  · rw [List.getElem?_eq_none (by rw [h.1.length_eq]; omega),
      List.getElem?_eq_none (by rw [h'.1.length_eq]; omega)]

end

variable [Scalar α]

/-! ## Running nested loops -/

/-- The heads of nested loops. -/
def enters (loops : List (String × Int)) : List Step := loops.map fun l => .enter l.1 l.2

/-- Nested loops whose body adds a term to something compute the sum of the terms. -/
theorem run_enters {loops : List (String × Int)}
    (hext : ∀ l ∈ loops, 0 < l.2 ∧ l.2 < 0x80000000) {P : α → Arrays α → Prop}
    {term : List Int → Option α} {steps : List Step} {f : Locals α}
    (hbody : ∀ k, InRange (loops.map (·.2)) k → ∀ s A, P s A → ∃ v A', term k = some v ∧
      Stmt.runAll id (f.inside (loops.map (·.1)) k) A (nest steps) = some A' ∧ P (s + v) A')
    {s : α} {A : Arrays α} (h : P s A) : ∃ v A',
      (indices (loops.map (·.2))).foldlM (fun s k => (term k).bind fun v => some (s + v)) s = some v ∧
      Stmt.runAll id f A (nest (enters loops ++ steps)) = some A' ∧ P v A' := by
  induction loops generalizing f term s A with
  | nil =>
    obtain ⟨v, A', hv, hrun, hP⟩ := hbody [] .nil s A h
    refine ⟨s + v, A', ?_, hrun, hP⟩
    simp only [List.map_nil, indices, List.foldlM_cons, List.foldlM_nil, hv]
    rfl
  | cons l loops ih =>
    obtain ⟨name, d⟩ := l
    obtain ⟨hpos, hlt⟩ := hext (name, d) (.head _)
    let sum (s : α) (i : Nat) : Option α := (indices (loops.map (·.2))).foldlM
      (fun s k => (term ((i : Int) :: k)).bind fun v => some (s + v)) s
    have hstep : ∀ i : Nat, (i : Int) < d → ∀ s A, P s A → ∃ v A', sum s i = some v ∧
        Stmt.runAll id { f with indices := (name, (i : Int)) :: f.indices } A
          (nest (enters loops ++ steps)) = some A' ∧ P v A' := by
      intro i hi s A hP
      exact ih (fun l hl => hext l (List.mem_cons_of_mem _ hl))
        (fun k hk => hbody (i :: k) (.cons (Int.natCast_nonneg i) hi hk)) hP
    -- after the first values of the index, what has been added is the sum over these
    obtain ⟨A', hloop, v, hv, hP⟩ := loop_invariant (n := d.toNat) (s := A)
      (g := fun i A => Stmt.runAll id { f with indices := (name, i) :: f.indices } A
        (nest (enters loops ++ steps)))
      (P := fun j A => ∃ v, (List.range j.toNat).foldlM sum s = some v ∧ P v A)
      (fun j A₁ lo hi hA => by
        obtain ⟨v, hv, hP⟩ := hA
        obtain ⟨i, rfl⟩ := Int.eq_ofNat_of_zero_le lo
        obtain ⟨v', A₂, hv', hrun, hP'⟩ := hstep i (by omega) v A₁ hP
        refine ⟨A₂, hrun, v', ?_, hP'⟩
        rw [show ((i : Int) + 1).toNat = i + 1 by omega, List.range_succ, List.foldlM_append]
        rw [Int.toNat_natCast] at hv
        rw [hv]
        simpa using hv')
      ⟨s, rfl, h⟩
    refine ⟨v, A', ?_, runAll_loop (int?_eq (by omega) hlt) hloop, hP⟩
    rw [show (0 + (d.toNat : Int)).toNat = d.toNat by omega] at hv
    rw [List.map_cons, indices, foldlM_flatMap]
    simpa only [List.foldlM_map] using hv

/-! ## The scene of the products -/

instance (c : Clause) (name : String) (sub idx : List Int) : Decidable (Clause.Owns c name sub idx) :=
  inferInstanceAs (Decidable (name = c.name ∧ c.target.own? sub = some idx))

/-- The scene inside the loops of a contraction: an index of the result together with contracted
indices is a point, and code adds the term at the point to the element at the index of the result. -/
def sumScene (layout : Layout) (S : Shapes) (c : Clause) (names : List String) (es : List Int)
    (term : Cells α → List Int → Option α) : Scene α where
  toRegion := loopRegion names (c.target.shape ++ es)
  Inv σ _ A := Addressable S ∧ Holds S A ∧ ∀ name stored sub, S name = some stored →
    InRange stored sub → name ≠ c.name → cellsIn layout S A name sub = σ name sub
  Post σ env A A' := Holds S A' ∧ ∀ pt, AtLoops names (c.target.shape ++ es) env pt →
    ∃ v, term σ pt = some v ∧ ∀ name stored sub, S name = some stored → InRange stored sub →
      cellsIn layout S A' name sub = if Clause.Owns c name sub (pt.take c.target.shape.length)
        then (cellsIn layout S A name sub).map (· + v) else cellsIn layout S A name sub

variable {names : List String} {es : List Int} {term : Cells α → List Int → Option α}

theorem sumScene_agrees : (sumScene layout S c names es term).Agrees names :=
  fun _ _ _ _ _ hpt hk hv => hpt.2 _ _ _ hk hv

/-- The statement in the innermost loop. -/
theorem accumulate_completes {f : Locals α} {σ : Cells α} {x y : Expr} {o : Offset} {stored : Shape}
    {u v : List Int → Option α} (hS : S c.name = some stored)
    (hpoint : ∃ pt, AtLoops names (c.target.shape ++ es) f.indices pt)
    (hx : (sumScene layout S c names es term).Values σ x u f)
    (hy : (sumScene layout S c names es term).Values σ y v f)
    (hterm : ∀ pt, AtLoops names (c.target.shape ++ es) f.indices pt →
      term σ pt = (u pt).bind fun a => (v pt).bind fun b => some (a * b))
    (haddr : (sumScene layout S c names es term).Addresses layout o stored
      (fun pt => c.target.subscript id (pt.take c.target.shape.length)) f) :
    (sumScene layout S c names es term).Completes σ [.put (.accumulate ⟨c.name, o⟩ x y)] f := by
  intro A hA
  obtain ⟨haddressable, hholds, -⟩ := id hA
  have hcount : Shape.count stored ≤ 0x80000000 := Int.le_of_lt (haddressable c.name stored hS).2
  obtain ⟨pt, hpt⟩ := hpoint
  obtain ⟨a, ha, -⟩ := hx f A pt (.refl f) hA hpt
  obtain ⟨b, hb, -⟩ := hy f A pt (.refl f) hA hpt
  obtain ⟨s, hs, hin, heval⟩ := haddr f pt (.refl f) hpt
  obtain ⟨old, hold⟩ := Option.isSome_iff_exists.mp (hholds.isSome hS hin)
  have hload : Element.load f A ⟨c.name, o⟩ = some old := (hholds.load_eq hS hin (heval hcount)).trans hold
  obtain ⟨A', hstore, hholds', -, hcells'⟩ := hholds.store_spec hS hin (heval hcount) (old + a * b)
  refine ⟨A', runAll_accumulate ha hb hload hstore [], hholds', fun pt' hpt' => ⟨a * b, ?_, ?_⟩⟩
  · obtain ⟨a', ha', hu⟩ := hx f A pt' (.refl f) hA hpt'
    obtain ⟨b', hb', hv⟩ := hy f A pt' (.refl f) hA hpt'
    rw [ha] at ha'
    rw [hb] at hb'
    cases ha'
    cases hb'
    rw [hterm pt' hpt', hu, hv]
    rfl
  · -- the address is the same at all points that are left
    obtain ⟨s', hs', hin', heval'⟩ := haddr f pt' (.refl f) hpt'
    have hsame : s' = s :=
      position_inj hin' hin (Option.some.inj ((heval' hcount).symm.trans (heval hcount)))
    subst hsame
    intro name stored' sub hS' hsub
    have hown : Clause.Owns c name sub (pt'.take c.target.shape.length) ↔ name = c.name ∧ sub = s' := by
      refine and_congr_right fun _ => ?_
      dsimp only at hs'
      rw [Node.own?_eq_some_iff, hs']
      refine ⟨fun h => (Option.some.inj h.1).symm, fun h => ⟨h ▸ rfl, (inRange_take hpt'.1).1⟩⟩
    rw [hcells' name stored' sub hS' hsub]
    by_cases h : name = c.name ∧ sub = s'
    · rw [if_pos h, if_pos (hown.mpr h), h.1, h.2, hold]
      rfl
    · rw [if_neg h, if_neg fun h' => h (hown.mp h')]

/-! ## The loops of a contraction -/

/-- The element is cleared and the loops of the contraction add the sum to it. -/
theorem contraction_completes {f : Locals α} {σ : Cells α} {o : Offset} {stored : Shape}
    {sums : List String} {steps : List Step} (hS : S c.name = some stored)
    (hlen : names.length = c.target.shape.length) (hsums : sums.length = es.length)
    (hext : Addressable S → ∀ e ∈ es, 0 < e ∧ e < 0x80000000)
    (hbound : ∀ name ∈ names, (f.indices.lookup name).isSome = true)
    (hpoint : ∃ idx, AtLoops names c.target.shape f.indices idx)
    (haddr : (loopScene (α := α) layout S c names).Addresses layout o stored
      (fun idx => c.target.subscript id idx) f)
    (heval : ∀ idx, AtLoops names c.target.shape f.indices idx → c.tree.eval σ idx =
      (indices es).foldlM (fun s k => (term σ (idx ++ k)).bind fun v => some (s + v)) 0)
    (hinner : ∀ idx k, AtLoops names c.target.shape f.indices idx → InRange es k →
      AtLoops (names ++ sums) (c.target.shape ++ es) (f.inside sums k).indices (idx ++ k) ∧
      (sumScene layout S c (names ++ sums) es term).Completes σ steps (f.inside sums k)) :
    (loopScene layout S c names).Completes σ
      (.put (.clear ⟨c.name, o⟩) :: (enters (sums.zip es) ++ steps)) f := by
  rintro A ⟨haddressable, hholds, hcells⟩
  have hcount : Shape.count stored ≤ 0x80000000 := Int.le_of_lt (haddressable c.name stored hS).2
  obtain ⟨idx, hidx⟩ := hpoint
  obtain ⟨s, hs, hin, haddress⟩ := haddr f idx (.refl f) hidx
  have hown : ∀ {name sub}, Clause.Owns c name sub idx ↔ name = c.name ∧ sub = s := by
    intro name sub
    refine and_congr_right fun _ => ?_
    dsimp only at hs
    rw [Node.own?_eq_some_iff, hs]
    exact ⟨fun h => (Option.some.inj h.1).symm, fun h => ⟨h ▸ rfl, hidx.1⟩⟩
  obtain ⟨A₁, hstore, hholds₁, -, hcells₁⟩ := hholds.store_spec hS hin (haddress hcount) (0 : α)
  have hnames : (sums.zip es).map (·.1) = sums := List.map_fst_zip (Nat.le_of_eq hsums)
  have hextents : (sums.zip es).map (·.2) = es := List.map_snd_zip (Nat.le_of_eq hsums.symm)
  -- the element holds what has been added, all others are as they were
  obtain ⟨v, A', hv, hrun, hholds', hcells'⟩ := run_enters (s := (0 : α)) (f := f)
    (A := A₁)
    (P := fun s A' => Holds S A' ∧ ∀ name stored sub, S name = some stored → InRange stored sub →
      cellsIn layout S A' name sub =
        if Clause.Owns c name sub idx then some s else cellsIn layout S A name sub)
    (fun l hl => hext haddressable l.2 (hextents ▸ List.mem_map_of_mem hl))
    (fun k hk s A₂ ⟨hholds₂, hcells₂⟩ => by
      rw [hextents] at hk
      obtain ⟨hat, hcomplete⟩ := hinner idx k hidx hk
      obtain ⟨A₃, hrun, hholds₃, hpost⟩ := hcomplete A₂ ⟨haddressable, hholds₂,
        fun name stored sub hS hsub hne => by
          rw [hcells₂ name stored sub hS hsub, if_neg fun h => hne h.1]
          exact hcells name stored sub hS hsub fun idx' h => absurd h.1 hne⟩
      obtain ⟨v, hv, hcells₃⟩ := hpost (idx ++ k) hat
      rw [List.take_left' hidx.1.length_eq] at hcells₃
      refine ⟨v, A₃, hv, hnames.symm ▸ hrun, hholds₃, fun name stored sub hS hsub => ?_⟩
      rw [hcells₃ name stored sub hS hsub, hcells₂ name stored sub hS hsub]
      split <;> rfl)
    ⟨hholds₁, fun name stored' sub hS' hsub => by
      rw [hcells₁ name stored' sub hS' hsub]
      exact if_congr hown.symm rfl rfl⟩
  rw [hextents] at hv
  refine ⟨A', (runAll_clear hstore _).trans hrun, hholds', fun name stored' sub hS' hsub =>
    ⟨fun idx' h hidx' => ?_, fun hnot => ?_⟩⟩
  · obtain rfl := atLoops_unique hlen hbound hidx hidx'
    rw [hcells' name stored' sub hS' hsub, if_pos h, heval _ hidx, hv]
  · rw [hcells' name stored' sub hS' hsub, if_neg fun h => hnot idx h hidx]

/-- The scope in the loops of a contraction. -/
theorem inside_scope {f : Locals α} {w w' : Writer} {sums : List String} {k pt : List Int}
    (hf : (loopScene (α := α) layout S c names).Scope w f) (hlen : k.length = sums.length)
    (hopen : ∀ name, w'.isOpen name = true ↔ w.isOpen name = true ∨ name ∈ sums)
    (htemp : w'.nextTemp = w.nextTemp)
    (hat : AtLoops (names ++ sums) (c.target.shape ++ es) (f.inside sums k).indices pt) :
    (sumScene layout S c (names ++ sums) es term).Scope w' (f.inside sums k) where
  bound name := by rw [hopen, inside_isSome hlen, hf.bound]
  fresh n hn := by
    rw [inside_temps]
    exact hf.fresh n (htemp ▸ hn)
  point := ⟨pt, hat⟩

/-! ## The code -/

/-- The name of a contracted index. -/
def sumName (t : Nat) : String := NameSupply.numbered "k" t

theorem sumName_injective : Function.Injective sumName := fun _ _ => NameSupply.numbered_injective "k"

/-- The names of several contracted indices. -/
def sumNames (first count : Nat) : List String := (List.range' first count).map sumName

theorem length_sumNames (first count : Nat) : (sumNames first count).length = count := by
  rw [sumNames, List.length_map, List.length_range']

theorem nodup_sumNames (first count : Nat) : (sumNames first count).Nodup :=
  (List.nodup_range').map sumName_injective

theorem openSums_spec {x : Node} {axes es : List Int} (hes : axes.mapM (at? x.shape) = some es)
    (w : Writer) : ∃ w', Emit.openSums x axes w =
        .ok ((sumNames w.nextSum es.length).map .loop, w') ∧
      w'.draft = w.draft.addAll (enters ((sumNames w.nextSum es.length).zip es)) ∧
      w'.flat = w.flat ∧ w'.nextTemp = w.nextTemp ∧
      ∀ name, w'.isOpen name = true ↔ w.isOpen name = true ∨ name ∈ sumNames w.nextSum es.length := by
  induction axes generalizing w es with
  | nil =>
    cases hes
    exact ⟨w, rfl, rfl, rfl, rfl, by simp [sumNames]⟩
  | cons ax axes ih =>
    simp only [List.mapM_cons, Option.bind_eq_bind, Option.bind_eq_some_iff, Option.pure_def,
      Option.some.injEq] at hes
    obtain ⟨e, he, es, hes, rfl⟩ := hes
    let w₁ := { w with nextSum := w.nextSum + 1 }.openLoop (sumName w.nextSum) e
    obtain ⟨w', hrun, hdraft, hflat, htemp, hopen⟩ := ih hes w₁
    have hnames : sumNames w.nextSum (e :: es).length =
        sumName w.nextSum :: sumNames w₁.nextSum es.length := rfl
    refine ⟨w', ?_, hdraft, hflat, htemp, fun name => ?_⟩
    · rw [Emit.openSums]
      refine (Emit.bind_ok Emit.get_run).trans ((Emit.bind_ok (Emit.modify_run _)).trans ?_)
      refine (Emit.bind_ok (Emit.demand_run he)).trans ((Emit.bind_ok (Emit.modify_run _)).trans ?_)
      exact (Emit.bind_ok hrun).trans rfl
    · rw [hopen, hnames, List.mem_cons, Writer.isOpen_openLoop, Bool.or_eq_true, beq_iff_eq,
        ← or_assoc]
      refine or_congr_left ?_
      rw [or_comm, @eq_comm _ _ name]
      rfl

/-- The element `a` has been cleared and the loops `sums` over the contracted indices are open. -/
structure SumsOpened (a : Element) (names : List String) (es : List Int) (sums : List String)
    (w w' : Writer) : Prop where
  length : sums.length = es.length
  nodup : sums.Nodup
  apart : ∀ name ∈ sums, name ∉ names ∧ w.isOpen name = false
  draft : w'.draft = w.draft.addAll (.put (.clear a) :: enters (sums.zip es))
  flat : w'.flat = w.flat
  temps : w'.nextTemp = w.nextTemp
  opened : ∀ name, w'.isOpen name = true ↔ w.isOpen name = true ∨ name ∈ sums

theorem exists_sumsOpened {x : Node} {axes es : List Int} (hes : axes.mapM (at? x.shape) = some es)
    {w : Writer} (hnames : ∀ t, sumName t ∉ names) (hfresh : ∀ t, w.isOpen (sumName t) = false)
    (a : Element) : ∃ sums w', Emit.openSums x axes (w.write (.clear a)) = .ok (sums.map .loop, w') ∧
      SumsOpened a names es sums w w' := by
  obtain ⟨w', hrun, hdraft, hflat, htemp, hopen⟩ := openSums_spec hes (w.write (.clear a))
  refine ⟨_, w', hrun, length_sumNames _ _, nodup_sumNames _ _, fun name hname => ?_, ?_,
    hflat.trans (Writer.grows_write w _).flat, htemp.trans (Writer.nextTemp_write _ _), fun name => ?_⟩
  · obtain ⟨t, -, rfl⟩ := List.mem_map.1 hname
    exact ⟨hnames t, hfresh t⟩
  · rw [hdraft, Writer.draft_write]
    rfl
  · rw [hopen, Writer.isOpen_write]

namespace SumsOpened

variable {a : Element} {sums : List String} {w w' : Writer} {f : Locals α} {idx k : List Int}
variable (h : SumsOpened a names es sums w w')
  (hf : (loopScene (α := α) layout S c names).Scope w f)
include h hf

theorem fresh : ∀ name ∈ sums, f.indices.lookup name = none := fun name hname =>
  Option.not_isSome_iff_eq_none.mp fun hsome => by
    rw [← hf.bound name, (h.apart name hname).2] at hsome
    cases hsome

/-- In the loops the names stand for the index of the result and the contracted indices. -/
theorem atLoops (hnd : names.Nodup) (hlen : names.length = c.target.shape.length)
    (hidx : AtLoops names c.target.shape f.indices idx) (hk : InRange es k) :
    AtLoops (names ++ sums) (c.target.shape ++ es) (f.inside sums k).indices (idx ++ k) := by
  have hidxlen : idx.length = names.length := hidx.1.length_eq.trans hlen.symm
  refine atLoops_inside (m := names.length) (List.nodup_append'.mpr ⟨hnd, h.nodup,
    fun name hname hname' => (h.apart name hname').1 hname⟩) h.nodup (h.fresh hf) (fun t name ht => ?_)
    (fun t v ht => ?_) (atLoops_append hlen (h.fresh hf) hidx hk)
  · rw [List.getElem?_append_right (Nat.le_add_right _ _), Nat.add_sub_cancel_left]
    exact ht
  · rw [List.getElem?_append_right (by omega), hidxlen, Nat.add_sub_cancel_left]
    exact ht

theorem scope (hk : InRange es k)
    (hat : AtLoops (names ++ sums) (c.target.shape ++ es) (f.inside sums k).indices (idx ++ k)) :
    (sumScene layout S c (names ++ sums) es term).Scope w' (f.inside sums k) :=
  inside_scope hf (hk.length_eq.trans h.length.symm) h.opened h.temps hat

end SumsOpened

/-- The product of a contraction at a point, which starts with the index of a result. -/
def productAt (n : Node) (ts : List Tree) (rank : Nat) (σ : Cells α) (pt : List Int) : Option α :=
  n.termWith ts (ts.map (Tree.eval σ)) (pt.take rank) (pt.drop rank)

/-- A contraction sums up its products. -/
theorem eval_productAt {id : NodeId} {n : Node} {ts : List Tree} (hk : n.kind = .contraction)
    (hes : n.contractedExtents ts = some es) (hpos : ∀ e ∈ es, 0 < e) (σ : Cells α) {idx : List Int}
    {rank : Nat} (hidx : idx.length = rank) : (Tree.node id n ts).eval σ idx =
      (indices es).foldlM (fun s k => (productAt n ts rank σ (idx ++ k)).bind fun v => some (s + v)) 0 := by
  rw [Tree.eval_contraction hk hes fun e he => Int.le_of_lt (hpos e he)]
  refine Tree.foldlM_congr (fun s k _ => ?_) 0
  rw [productAt, List.take_left' hidx, List.drop_left' hidx]

namespace Codable

variable {K : ShapeClass} {p : Program} (h : Codable K p S c)
include h

/-- Whatever a contraction reads is not its destination, and so as it was at the start. -/
theorem sum_reads {id : NodeId} {n : Node} {ts : List Tree} (htree : c.tree = .node id n ts)
    (hk : n.kind = .contraction) : (sumScene layout S c names es term).Reads layout S
      fun pt => c.tree.Touches (pt.take c.target.shape.length) := by
  rintro σ env A pt name stored sub ⟨haddressable, hholds, hcells⟩ - htouch hS hsub
  refine ⟨Int.le_of_lt (haddressable name stored hS).2, hholds, hcells name stored sub hS hsub ?_⟩
  rintro rfl
  have hpermutes : c.tree.kind.permutes = true := by
    rw [htree, Tree.kind_node, hk]
    rfl
  exact h.direct.aligned.apart_of_permutes hpermutes htouch.mem_names

/-- The factors of the products, once the loops of the contraction are open. -/
theorem factors_spec {id : NodeId} {n : Node} {t₀ t₁ : Tree} (htree : c.tree = .node id n [t₀, t₁])
    (hk : n.kind = .contraction) (hes : n.contractedExtents [t₀, t₁] = some es)
    (hpos : ∀ e ∈ es, 0 < e) {sums : List String} {sc : Scene α}
    (hlen : names.length = c.target.shape.length)
    (hsums : sums.length = es.length) {w : Writer} (hflat : w.flat = none)
    (hopen : ∀ name ∈ names ++ sums, w.isOpen name = true) (hscene : sc =
      sumScene layout S c (names ++ sums) es (productAt n [t₀, t₁] c.target.shape.length)) :
    ∃ (indices : List (List Index)) (x y : Expr) (w₁ w₂ : Writer)
      (u v : Cells α → List Int → Option α), n.operandIndices ([t₀, t₁].map Tree.rank?) (names.map .loop)
        (sums.map .loop) = some indices ∧
      Emit.operandAt [t₀, t₁] (Emit.trees p layout [t₀, t₁]) indices 0 w = .ok (x, w₁) ∧
      Emit.operandAt [t₀, t₁] (Emit.trees p layout [t₀, t₁]) indices 1 w₁ = .ok (y, w₂) ∧
      (∀ σ env pt, sc.At env pt →
        productAt n [t₀, t₁] c.target.shape.length σ pt =
          (u σ pt).bind fun a => (v σ pt).bind fun b => some (a * b)) ∧
      sc.Emits w w₂ fun σ f => sc.Values σ x (u σ) f ∧ sc.Values σ y (v σ) f := by
  subst hscene
  have htyped : (Tree.node id n [t₀, t₁]).Typed K.Admits S := htree ▸ h.typed
  have hshape : n.shape = c.target.shape := by rw [← h.shape, htree, Tree.shape_node]
  have hpoint : ∃ env pt, (sumScene (α := α) layout S c (names ++ sums) es
      (productAt n [t₀, t₁] c.target.shape.length)).At env pt := by
    obtain ⟨pt, hpt⟩ := exists_inRange (s := c.target.shape ++ es) fun d hd =>
      (List.mem_append.mp hd).elim (h.pos d) (hpos d)
    exact ⟨[], pt, hpt, fun _ _ _ _ hv => by cases hv⟩
  have hstands : ∀ (env : List (String × Int)) pt, (sumScene (α := α) layout S c (names ++ sums) es
      (productAt n [t₀, t₁] c.target.shape.length)).At env pt →
      List.Forall₂ (Stands (names ++ sums) pt) (names.map .loop) (pt.take c.target.shape.length) ∧
        List.Forall₂ (Stands (names ++ sums) pt) (sums.map .loop) (pt.drop c.target.shape.length) := by
    intro env pt hpt
    have hstands := stands_names (names ++ sums) (by
      rw [hpt.1.length_eq, List.length_append, List.length_append, hlen, hsums])
    rw [List.map_append] at hstands
    have hleft := List.forall₂_take names.length hstands
    have hright := List.forall₂_drop names.length hstands
    rw [List.take_left' (List.length_map _)] at hleft
    rw [List.drop_left' (List.length_map _)] at hright
    exact hlen ▸ ⟨hleft, hright⟩
  obtain ⟨is₀, is₁, view₀, view₁, hindices, hgood₀, hgood₁, hviews⟩ := named_operands hpoint htyped
    (by rw [hk]; rfl) (fun t ht => h.plain_operand htree ht) hstands
    (fun env pt hpt => ⟨hshape ▸ (inRange_take hpt.1).1, fun _ => ⟨es, (inRange_take hpt.1).2, hes⟩⟩)
    (fun env pt _ name sub (htouch : (Tree.node id n [t₀, t₁]).Touches _ name sub) =>
      show c.tree.Touches (pt.take c.target.shape.length) name sub by rwa [htree])
  let cd := namedCoding sumScene_agrees hpoint (h.sum_reads htree hk) h.stored
  have hw : cd.Ready w := ⟨hflat, fun name hname => .inl (hopen name hname)⟩
  obtain ⟨e₀, w₀, hrun₀, he₀⟩ := cd.tree_spec hgood₀ hw
  obtain ⟨x, w₁, hx, hxv⟩ := Coding.operandAt_spec (show [t₀, t₁][0]? = _ from rfl)
    (show [is₀, is₁][0]? = _ from rfl) hrun₀ he₀
  obtain ⟨e₁, w₂, hrun₁, he₁⟩ := cd.tree_spec hgood₁ (cd.ready hw hxv.grows)
  obtain ⟨y, w₃, hy, hyv⟩ := Coding.operandAt_spec (show [t₀, t₁][1]? = _ from rfl)
    (show [is₀, is₁][1]? = _ from rfl) hrun₁ he₁
  rw [← Emit.trees_eq_map] at hx hy
  refine ⟨_, x, y, w₁, w₃, fun σ pt => t₀.eval σ (view₀ pt), fun σ pt => t₁.eval σ (view₁ pt), hindices,
    hx, hy, fun σ env pt hpt => ?_, hxv.trans hyv fun σ f f' hwithin hv => hv.within _ hwithin⟩
  rw [productAt, Tree.termWith_eq (hviews env pt hpt)]

/-- The loops of the result are opened, and the element of the destination gets its address in them. -/
theorem opened_target (hlen : names.length = c.target.shape.length) {w : Writer}
    (hw : (loopScene (α := α) layout S c names).Reachable names w) {stored : Shape}
    (hS : S c.name = some stored) (hviews : c.target.Views stored) :
    ∃ o w', Emit.access p layout c.target (names.map .loop) (w.ensure (names.map .loop)) =
        .ok (⟨c.name, o⟩, w') ∧
      ((loopScene (α := α) layout S c names).Emits w w' fun _ f =>
        (∀ i ∈ names.map Index.loop, ∀ name, i.loopName? = some name →
          (f.indices.lookup name).isSome = true) ∧
        (loopScene (α := α) layout S c names).Addresses layout o stored
          (fun idx => c.target.subscript id idx) f) ∧
      (∀ name ∈ names, w'.isOpen name = true) ∧
      ∀ name, w'.isOpen name = true → w.isOpen name = true ∨ name ∈ names := by
  have hensure := Scene.Emits.ensure hw.1
    fun i (hi : i ∈ names.map Index.loop) name hname => by
      obtain ⟨name', hname', rfl⟩ := List.mem_map.mp hi
      cases hname
      exact hw.2 name hname'
  have hopen : ∀ name, (w.ensure (names.map .loop)).isOpen name = true ↔
      w.isOpen name = true ∨ name ∈ names := by
    intro name
    rw [Writer.isOpen_ensure hw.1]
    refine or_congr_right ?_
    simp [Index.loopName?]
  obtain ⟨o, w', hrun, haddr, hopened⟩ :=
    h.target_spec (α := α) hlen (hw.grows hensure.grows) hS hviews
  refine ⟨o, w', hrun, hensure.trans haddr fun σ f f' hwithin hbound i hi name hname => ?_,
    fun name hname => haddr.grows.opened name ((hopen name).mpr (.inr hname)),
    fun name hname => (hopened name hname).elim (hopen name).mp .inr⟩
  obtain ⟨v, hv⟩ := Option.isSome_iff_exists.mp (hbound i hi name hname)
  exact Option.isSome_iff_exists.mpr ⟨v, hwithin.indices name v hv⟩

/-- A contraction, with a loop for each axis of its result. -/
theorem contraction_spec (hkind : c.tree.kind = .contraction) (hnd : names.Nodup)
    (hlen : names.length = c.target.shape.length) (hsums : ∀ t, sumName t ∉ names) {w : Writer}
    (hw : (loopScene (α := α) layout S c names).Reachable names w)
    (hopen : ∀ t, w.isOpen (sumName t) = false) :
    ∃ w', Emit.body p layout c.target c.tree (names.map .loop) w = .ok ((), w') ∧
      (loopScene (α := α) layout S c names).Writes w w' := by
  obtain ⟨id, n, ts, htree⟩ := h.typed.exists_node
  have hk : n.kind = .contraction := by rwa [htree, Tree.kind_node] at hkind
  have htyped : (Tree.node id n ts).Typed K.Admits S := htree ▸ h.typed
  obtain ⟨t₀, t₁, rfl⟩ := htyped.exists_pair hk
  obtain ⟨es, hes, hpos⟩ := htyped.contractedExtents K.admits_pos hk
  obtain ⟨stored, hS, hviews⟩ := h.target
  have ht₀ : t₀.Typed K.Admits S := by
    cases htyped with
    | node _ _ hts => exact hts t₀ (.head _)
  have haxes : n.lhsAxes.mapM (at? t₀.shape) = some es := by
    rw [← Tree.contractedExtents_eq (n := n) ht₀, hes]
  have hext : Addressable S → ∀ e ∈ es, 0 < e ∧ e < 0x80000000 := fun hS e he =>
    ⟨hpos e he, (h.plain_operand htree (.head _)).extent_lt ht₀ hS e (mem_of_mapM_at? haxes he)⟩
  obtain ⟨id₀, m, ts₀, ht₀'⟩ := ht₀.exists_node
  -- the loops of the result are opened, the element of the destination is cleared, and the loops of
  -- the contraction are opened
  obtain ⟨o, w₁, hrun₁, htarget, hopen₁, hopened₁⟩ := h.opened_target (α := α) hlen hw hS hviews
  have hfresh : ∀ t, w₁.isOpen (sumName t) = false := fun t => Bool.eq_false_iff.mpr fun hname => by
    rcases hopened₁ _ hname with hname | hname
    · rw [hopen] at hname
      cases hname
    · exact hsums t hname
  obtain ⟨sums, w₂, hrun₂, hopened⟩ := exists_sumsOpened (x := m)
    (by rwa [ht₀', Tree.shape_node] at haxes) hsums hfresh ⟨c.name, o⟩
  -- the factors of the products are written in the loops of the contraction
  obtain ⟨indices, x, y, w₃, w₄, u, v, hindices, hx, hy, hterm, hfactors⟩ := h.factors_spec (α := α)
    (p := p) htree hk hes hpos hlen hopened.length (hopened.flat.trans (hw.grows htarget.grows).1)
    (fun name hname => (hopened.opened name).mpr ((List.mem_append.mp hname).imp_left (hopen₁ name))) rfl
  obtain ⟨steps, hdraft, htemps, hsteps⟩ := hfactors.steps
  refine ⟨w₄.write (.accumulate ⟨c.name, o⟩ x y), ?run, htarget.writes
    (l := .put (.clear ⟨c.name, o⟩) ::
      (enters (sums.zip es) ++ (steps ++ [.put (.accumulate ⟨c.name, o⟩ x y)])))
    ?draft ?temps ?stored ?completes⟩
  case run =>
    rw [htree, Emit.body, if_pos hk, Emit.contraction]
    refine (Emit.bind_ok (Emit.modify_run _)).trans ?_
    refine (Emit.bind_ok hrun₁).trans ((Emit.bind_ok (Emit.write_run _)).trans ?_)
    refine (Emit.bind_ok (Emit.demand_run (b := m) (by rw [ht₀']; rfl))).trans ?_
    refine (Emit.bind_ok hrun₂).trans ((Emit.bind_ok (Emit.demand_run hindices)).trans ?_)
    exact (Emit.bind_ok hx).trans ((Emit.bind_ok hy).trans rfl)
  case draft =>
    rw [Writer.draft_write, hdraft, hopened.draft]
    simp only [Draft.addAll, List.foldl_cons, List.foldl_append, List.foldl_nil, Draft.add]
  case temps =>
    rw [Writer.nextTemp_write, ← hopened.temps]
    exact hfactors.grows.temps
  case stored =>
    intro t e hmem
    rw [Writer.nextTemp_write]
    simp only [List.mem_cons, List.mem_append, List.not_mem_nil, or_false, enters, List.mem_map,
      Step.put.injEq, reduceCtorEq, and_false, exists_false, false_or] at hmem
    exact htemps t e hmem
  case completes =>
    rintro σ f hf ⟨hbound, haddress⟩
    refine contraction_completes hS hlen hopened.length hext
      (fun name hname => hbound _ (List.mem_map_of_mem hname) name rfl) hf.point haddress
      (fun idx hidx => htree ▸ eval_productAt hk hes hpos σ hidx.1.length_eq) fun idx k hidx hk => ?_
    have hat := hopened.atLoops hf hnd hlen hidx hk
    refine ⟨hat, hsteps σ _ _ (hopened.scope hf hk hat) fun f' hwithin hf' hvalues => ?_⟩
    refine accumulate_completes hS hf'.point hvalues.1 hvalues.2 (fun pt hpt => hterm σ _ pt hpt)
      fun f'' pt hwithin' hpt => ?_
    exact haddress f'' _ ((within_inside hopened.nodup (hopened.fresh hf)).trans
      (hwithin.trans hwithin')) (atLoops_take hlen hpt)

end Codable

end LoopNest.C
