import LoopNest.Proofs.Correctness

/-!
# What the inputs determine

Two runs of a lowered program from memories of one form that agree on the inputs go on in step and
end with the same contents in every tensor that the program writes (`run_determined`): whatever is
read was an input or has been written before. `Memory.Alike` is the relation between the two runs;
it grows by the cell that is written. No bound on the sizes is needed: where positions wrap, both
runs store to the same place, or both of them stop.
-/

namespace LoopNest

variable {α : Type} {S : Shapes} {P : String → List Int → Prop} {m₁ m₂ : Memory α}

/-! ## Memories of one form -/

/-- Every tensor is there, with its shape and with as many elements as that asks for. -/
def Memory.Formed (S : Shapes) (mem : Memory α) : Prop :=
  ∀ name stored, S name = some stored →
    ∃ t, mem.get? name = some t ∧ t.dims = stored ∧ t.data.size = stored.size.toNat

theorem Memory.Formed.contains (h : m₁.Formed S) {name : String} {stored : Shape}
    (hS : S name = some stored) : m₁.contains name = true := by
  obtain ⟨t, ht, -⟩ := h name stored hS
  rw [OrderedMap.contains, ht]
  rfl

theorem Memory.Formed.fits (h : m₁.Formed S) (hS : ∀ name stored, S name = some stored →
    (∀ d ∈ stored, 0 < d) ∧ Shape.count stored < 0x8000000000000000) : m₁.Fits S := by
  intro name stored hstored
  obtain ⟨t, ht, hdims, hsize⟩ := h name stored hstored
  obtain ⟨hpos, hcount⟩ := hS name stored hstored
  refine ⟨t, ht, hdims, ?_⟩
  rw [hsize, Shape.size_eq_count hpos hcount]
  exact Int.toNat_of_nonneg (Int.le_of_lt (Shape.count_pos hpos))

/-- Two memories of one form that hold the same at some of the cells. -/
structure Memory.Alike (S : Shapes) (P : String → List Int → Prop) (m₁ m₂ : Memory α) : Prop where
  left : m₁.Formed S
  right : m₂.Formed S
  cells : ∀ name stored sub, S name = some stored → InRange stored sub → P name sub →
    cellsOf m₁ name sub = cellsOf m₂ name sub

theorem Memory.Alike.mono {Q : String → List Int → Prop} (h : Memory.Alike S P m₁ m₂)
    (hsub : ∀ name sub, Q name sub → P name sub) : Memory.Alike S Q m₁ m₂ :=
  ⟨h.left, h.right, fun name stored sub hS hin hQ => h.cells name stored sub hS hin (hsub name sub hQ)⟩

theorem Tensor.set?_eq_none_iff {t : Tensor α} {sub : List Int} {v : α} :
    t.set? sub v = none ↔ ∀ o, t.offset sub = some o → ¬ (0 ≤ o ∧ o < t.data.size) := by
  cases ho : t.offset sub with
  | none => simp [Tensor.set?, ho]
  | some o => simp [Tensor.set?, ho]

theorem Tensor.size_set? {t t' : Tensor α} {sub : List Int} {v : α} (h : t.set? sub v = some t') :
    t'.dims = t.dims ∧ t'.data.size = t.data.size := by
  obtain ⟨o, -, -, rfl⟩ := set?_eq_some_iff.mp h
  exact ⟨rfl, Array.size_setIfInBounds⟩

theorem storeAt_cases {mem : Memory α} {n : Node} {idx sub : List Int} {t : Tensor α}
    (hsub : n.subscript id idx = some sub) (ht : mem.get? n.name = some t) (v : α) :
    (storeAt mem n idx v = none ∧ t.set? sub v = none) ∨
      ∃ t' mem', t.set? sub v = some t' ∧ storeAt mem n idx v = some mem' ∧
        ∀ name, mem'.get? name = if name = n.name then some t' else mem.get? name := by
  rw [storeAt, hsub, Option.bind_eq_bind, Option.bind_some]
  rcases mem.change?_cases n.name (·.set? sub v) with
    ⟨hnone, hset⟩ | ⟨u, u', mem', hu, hset, hsome, -, hget⟩
  · rw [ht] at hset
    exact .inl ⟨hnone, hset⟩
  · rw [ht] at hu
    cases hu
    exact .inr ⟨u', mem', hset, hsome, hget⟩

theorem Memory.Formed.store {mem mem' : Memory α} {name : String} {t t' : Tensor α} {sub : List Int}
    {v : α} (h : mem.Formed S) (ht : mem.get? name = some t) (hset : t.set? sub v = some t')
    (hget : ∀ m, mem'.get? m = if m = name then some t' else mem.get? m) : mem'.Formed S := by
  intro m stored hS
  obtain ⟨u, hu, hdims, hsize⟩ := h m stored hS
  by_cases hm : m = name
  · subst hm
    rw [ht] at hu
    cases hu
    obtain ⟨hdims', hsize'⟩ := Tensor.size_set? hset
    exact ⟨t', by rw [hget, if_pos rfl], hdims'.trans hdims, hsize'.trans hsize⟩
  · exact ⟨u, by rw [hget, if_neg hm, hu], hdims, hsize⟩

/-- The same store to both memories: it fails in both, or the cell is alike afterwards. -/
theorem Memory.Alike.store (h : Memory.Alike S P m₁ m₂) {n : Node} {stored : Shape}
    (hstored : S n.name = some stored) (hviews : n.Views stored) {idx : List Int}
    (hidx : InRange n.shape idx) (v : α) :
    Option.Rel (Memory.Alike S fun name sub => P name sub ∨ name = n.name ∧ n.own? sub = some idx)
      (storeAt m₁ n idx v) (storeAt m₂ n idx v) := by
  obtain ⟨sub, hsub, hin⟩ := hviews.subscript_inRange hidx
  obtain ⟨t₁, ht₁, hdims₁, hsize₁⟩ := h.left n.name stored hstored
  obtain ⟨t₂, ht₂, hdims₂, hsize₂⟩ := h.right n.name stored hstored
  have hoffset : ∀ s, t₂.offset s = t₁.offset s := fun s => by
    rw [Tensor.offset, Tensor.offset, hdims₁, hdims₂]
  have hfail : t₁.set? sub v = none ↔ t₂.set? sub v = none := by
    rw [Tensor.set?_eq_none_iff, Tensor.set?_eq_none_iff, hoffset, hsize₁, hsize₂]
  rcases storeAt_cases hsub ht₁ v with ⟨hnone₁, hset₁⟩ | ⟨u₁, n₁, hset₁, hsome₁, hget₁⟩
  all_goals rcases storeAt_cases hsub ht₂ v with ⟨hnone₂, hset₂⟩ | ⟨u₂, n₂, hset₂, hsome₂, hget₂⟩
  · rw [hnone₁, hnone₂]
    exact .none
  · rw [hfail.mp hset₁] at hset₂
    cases hset₂
  · rw [hfail.mpr hset₂] at hset₁
    cases hset₁
  · rw [hsome₁, hsome₂]
    refine .some ⟨h.left.store ht₁ hset₁ hget₁, h.right.store ht₂ hset₂ hget₂, ?_⟩
    intro name stored' sub' hS hin' hP
    rw [cellsOf, cellsOf, hget₁, hget₂]
    by_cases hname : name = n.name
    · subst hname
      rw [if_pos rfl, if_pos rfl, Option.bind_eq_bind, Option.bind_some, Option.bind_some,
        Tensor.get?_set? hset₁, Tensor.get?_set? hset₂, hoffset, hoffset]
      by_cases hsame : t₁.offset sub' = t₁.offset sub
      · rw [if_pos hsame, if_pos hsame]
      · rw [if_neg hsame, if_neg hsame]
        rcases hP with hP | ⟨-, hown⟩
        · have hold := h.cells n.name stored' sub' hS hin' hP
          rwa [cellsOf, cellsOf, ht₁, ht₂] at hold
        · obtain ⟨hsub', -⟩ := Node.own?_eq_some_iff.mp hown
          rw [hsub] at hsub'
          cases hsub'
          exact absurd rfl hsame
    · rw [if_neg hname, if_neg hname]
      exact h.cells name stored' sub' hS hin' (hP.resolve_right fun hown => hname hown.1)

theorem word64_le {n : Int} (h : 0 ≤ n) : word64 n ≤ n ∧ word64 n < 0x8000000000000000 := by
  simp only [word64, Int.bmod]
  split <;> omega

/-- Tensors of one form with the same elements at all indices are equal, also when the positions of
some indices wrap. -/
theorem Tensor.ext_of_formed {stored : Shape} {t u : Tensor α} (hpos : ∀ d ∈ stored, 0 < d)
    (ht : t.dims = stored) (hu : u.dims = stored) (htsize : t.data.size = stored.size.toNat)
    (husize : u.data.size = stored.size.toNat)
    (h : ∀ sub, InRange stored sub → t.get? sub = u.get? sub) : t = u := by
  have hcount := Shape.count_pos hpos
  have hsize := Shape.size_eq_word stored
  have hdata : t.data = u.data := by
    refine Array.ext_getElem? fun i => ?_
    by_cases hi : i < t.data.size
    · have hi' : (i : Int) < word64 (Shape.count stored) := by omega
      obtain ⟨hle, hlt⟩ := word64_le (Int.le_of_lt hcount)
      obtain ⟨sub, hsub, hflat⟩ :=
        exists_flatten (fun d hd => Int.le_of_lt (hpos d hd)) (o := (i : Int)) (by omega) (by omega)
      have hoffset : rowMajor stored sub = some (i : Int) := by
        rw [rowMajor_eq_word hsub.length_eq, hflat, word64_of_fits (by omega) (by omega)]
      have hneg : ¬ ((i : Int) < 0) := by omega
      have heq := h sub hsub
      simpa only [Tensor.get?, Tensor.offset, ht, hu, hoffset, Option.bind_eq_bind, Option.bind_some,
        if_neg hneg, Int.toNat_natCast] using heq
    · rw [Array.getElem?_eq_none (by omega), Array.getElem?_eq_none (by omega)]
  cases t
  cases u
  simp_all

/-! ## Runs in step -/

theorem option_rel_bind {σ τ υ φ : Type _} {R : σ → τ → Prop} {Q : υ → φ → Prop} {x : Option σ}
    {y : Option τ} {f : σ → Option υ} {g : τ → Option φ} (h : Option.Rel R x y)
    (hf : ∀ a b, R a b → Option.Rel Q (f a) (g b)) : Option.Rel Q (x.bind f) (y.bind g) := by
  cases h with
  | none => exact .none
  | some h => exact hf _ _ h

theorem option_rel_mono {σ τ : Type _} {R Q : σ → τ → Prop} {x : Option σ} {y : Option τ}
    (h : Option.Rel R x y) (hR : ∀ a b, R a b → Q a b) : Option.Rel Q x y := by
  cases h with
  | none => exact .none
  | some h => exact .some (hR _ _ h)

theorem foldlM_rel {β σ τ : Type _} {R : σ → τ → Prop} {l : List β} {f : σ → β → Option σ}
    {g : τ → β → Option τ} (step : ∀ s t, ∀ x ∈ l, R s t → Option.Rel R (f s x) (g t x)) {s : σ} {t : τ}
    (h : R s t) : Option.Rel R (l.foldlM f s) (l.foldlM g t) := by
  induction l generalizing s t with
  | nil => exact .some h
  | cons x l ih =>
    rw [List.foldlM_cons, List.foldlM_cons]
    exact option_rel_bind (step s t x (.head _) h) fun a b hab =>
      ih (fun s t y hy => step s t y (List.mem_cons_of_mem _ hy)) hab

/-- Two runs stop with the same failure, or both end. -/
inductive Lockstep (R : Memory α → Memory α → Prop) :
    Except Failure (Memory α) → Except Failure (Memory α) → Prop
  | error (e : Failure) : Lockstep R (.error e) (.error e)
  | ok {m₁ m₂ : Memory α} : R m₁ m₂ → Lockstep R (.ok m₁) (.ok m₂)

namespace Lockstep

variable {R Q : Memory α → Memory α → Prop} {x y : Except Failure (Memory α)}

theorem mono (h : Lockstep R x y) (hR : ∀ m₁ m₂, R m₁ m₂ → Q m₁ m₂) : Lockstep Q x y := by
  cases h with
  | error e => exact .error e
  | ok h => exact .ok (hR _ _ h)

theorem bind {f g : Memory α → Except Failure (Memory α)} (h : Lockstep R x y)
    (hf : ∀ m₁ m₂, R m₁ m₂ → Lockstep Q (f m₁) (g m₂)) : Lockstep Q (x >>= f) (y >>= g) := by
  cases h with
  | error e => exact .error e
  | ok h => exact hf _ _ h

theorem inContext (h : Lockstep R x y) (f : Diagnostic → Diagnostic) :
    Lockstep R (inContext f x) (LoopNest.inContext f y) := by
  cases h with
  | error e => exact .error _
  | ok h => exact .ok h

theorem orFault {x y : Option (Memory α)} (h : Option.Rel R x y) :
    Lockstep R (orFault x) (LoopNest.orFault y) := by
  cases h with
  | none => exact .error _
  | some h => exact .ok h

end Lockstep

variable [Scalar α] {K : ShapeClass} {find : Symbols} {c : Clause}

/-- The cells that a clause writes at some of its indices. -/
def Clause.Writes (c : Clause) (V : List Int → Prop) (name : String) (sub : List Int) : Prop :=
  name = c.name ∧ ∃ idx, c.target.own? sub = some idx ∧ V idx

namespace Memory.Alike

theorem eval_eq (h : Memory.Alike S P m₁ m₂) {t : Tree} (ht : t.Typed K.Admits S) {idx : List Int}
    (hidx : InRange t.shape idx) (hreads : ∀ name sub, t.Touches idx name sub → P name sub) :
    t.eval (cellsOf m₁) idx = t.eval (cellsOf m₂) idx := by
  refine Tree.eval_congr K.admits_nonneg ht hidx fun name sub htouch => ?_
  obtain ⟨stored, hstored, hsub⟩ := htouch.inRange ht hidx
  exact h.cells name stored sub hstored hsub (hreads name sub htouch)

/-- One element, when all that it reads is alike. -/
theorem runElement (h : Memory.Alike find.shapes P m₁ m₂) (hfits : c.Fits K find) {idx : List Int}
    (hidx : InRange c.target.shape idx)
    (hreads : ∀ name sub, c.tree.Touches idx name sub → P name sub) :
    Option.Rel (Memory.Alike find.shapes fun name sub =>
        P name sub ∨ name = c.name ∧ c.target.own? sub = some idx)
      (Program.runElement c.target c.tree idx m₁) (Program.runElement c.target c.tree idx m₂) := by
  obtain ⟨s, hs, hviews, -⟩ := hfits.declared
  have hstored := Symbols.shapes_eq hs
  have htyped := hfits.typed
  have hshape : InRange c.tree.shape idx := hfits.shape ▸ hidx
  cases htree : c.tree with
  | missing => exact .none
  | node id n ts =>
    rw [htree] at htyped hshape hreads
    by_cases hkind : n.kind = .contraction
    · rw [Program.runElement, Program.runElement, if_pos hkind, if_pos hkind]
      obtain ⟨es, hes, hpos⟩ := htyped.contractedExtents K.admits_nonneg hkind
      simp only [hes, Option.bind_eq_bind, Option.bind_some, forEach_eq_foldlM hpos]
      -- the sum so far is alike, as it has been cleared in both memories
      refine option_rel_bind (h.store hstored hviews hidx 0) fun n₁ n₂ hn => ?_
      refine foldlM_rel (fun n₁ n₂ k hk hn => ?_) hn
      have hterm : n.termWith ts (Tree.evalAll (cellsOf n₁) ts) idx k =
          n.termWith ts (Tree.evalAll (cellsOf n₂) ts) idx k := by
        rw [Tree.evalAll_eq_map, Tree.evalAll_eq_map]
        refine htyped.termWith_congr K.admits_nonneg hkind hes hshape (mem_indices.mp hk)
          fun name sub htouch => ?_
        obtain ⟨stored, hstored, hsub⟩ := htouch.inRange htyped hshape
        exact hn.cells name stored sub hstored hsub (.inl (hreads name sub htouch))
      have hload : loadAt (cellsOf n₁) c.target idx = loadAt (cellsOf n₂) c.target idx := by
        obtain ⟨sub, hsub, hin⟩ := hviews.subscript_inRange hidx
        rw [loadAt, loadAt, hsub, Option.bind_eq_bind, Option.bind_some, Option.bind_some]
        exact hn.cells c.name s.shape sub hstored hin
          (.inr ⟨rfl, Node.own?_eq_some_iff.mpr ⟨hsub, hidx⟩⟩)
      rw [hterm, hload]
      cases n.termWith ts (Tree.evalAll (cellsOf n₂) ts) idx k with
      | none => exact .none
      | some x =>
        cases loadAt (cellsOf n₂) c.target idx with
        | none => exact .none
        | some y =>
          exact option_rel_mono (hn.store hstored hviews hidx (y + x)) fun _ _ h =>
            h.mono fun _ _ => .inl
    · rw [Program.runElement, Program.runElement, if_neg hkind, if_neg hkind,
        h.eval_eq htyped hshape hreads]
      cases (Tree.node id n ts).eval (cellsOf m₂) idx with
      | none => exact .none
      | some v => exact h.store hstored hviews hidx v

/-- The elements of an assignment. -/
theorem runElements {visits : List (List Int)} (h : Memory.Alike find.shapes P m₁ m₂)
    (hfits : c.Fits K find) (hin : ∀ idx ∈ visits, InRange c.target.shape idx)
    (hreads : ∀ idx ∈ visits, ∀ name sub, c.tree.Touches idx name sub → P name sub) :
    Option.Rel (Memory.Alike find.shapes fun name sub =>
        P name sub ∨ c.Writes (· ∈ visits) name sub)
      (visits.foldlM (fun mem idx => Program.runElement c.target c.tree idx mem) m₁)
      (visits.foldlM (fun mem idx => Program.runElement c.target c.tree idx mem) m₂) := by
  induction visits generalizing P m₁ m₂ with
  | nil => exact .some (h.mono fun name sub hP => hP.resolve_right (by simp [Clause.Writes]))
  | cons idx visits ih =>
    rw [List.foldlM_cons, List.foldlM_cons]
    refine option_rel_bind (h.runElement hfits (hin idx (.head _)) (hreads idx (.head _)))
      fun n₁ n₂ hn => ?_
    refine option_rel_mono (ih hn (fun i hi => hin i (List.mem_cons_of_mem _ hi))
      fun i hi name sub htouch => .inl (hreads i (List.mem_cons_of_mem _ hi) name sub htouch))
      fun _ _ h => h.mono fun name sub hP => ?_
    rcases hP with hP | ⟨hname, i, hown, hi⟩
    · exact .inl (.inl hP)
    · rcases List.mem_cons.mp hi with rfl | hi
      · exact .inl (.inr ⟨hname, hown⟩)
      · exact .inr ⟨hname, i, hown, hi⟩

end Memory.Alike

/-! ## Assignments in step -/

/-- The cells that assignments write at one value of the shared loop. -/
def WrittenBy (f : Int) (xs : List (Assignment × Clause)) (name : String) (sub : List Int) : Prop :=
  ∃ x ∈ xs, x.2.Writes (AtShared x.1.fuseAxis f) name sub

theorem writtenBy_append {f : Int} {xs ys : List (Assignment × Clause)} {name : String}
    {sub : List Int} :
    WrittenBy f (xs ++ ys) name sub ↔ WrittenBy f xs name sub ∨ WrittenBy f ys name sub := by
  simp only [WrittenBy, List.mem_append, or_and_right, exists_or]

/-- At one value of the shared loop, what an assignment reads is known beforehand or written by the
assignments in front of it. -/
def ReadsKnown (P : String → List Int → Prop) (f : Int) (xs : List (Assignment × Clause)) : Prop :=
  ∀ l x r, xs = l ++ x :: r → ∀ idx, InRange x.2.target.shape idx → AtShared x.1.fuseAxis f idx →
    ∀ name sub, x.2.tree.Touches idx name sub → P name sub ∨ WrittenBy f l name sub

namespace Memory.Alike

theorem runAssignment {p : Program} {f : Int} {x : Assignment × Clause}
    (h : Memory.Alike find.shapes P m₁ m₂) (hx : Executes K p find f x)
    (hreads : ∀ idx, InRange x.2.target.shape idx → AtShared x.1.fuseAxis f idx →
      ∀ name sub, x.2.tree.Touches idx name sub → P name sub) :
    Lockstep (Memory.Alike find.shapes fun name sub => P name sub ∨ WrittenBy f [x] name sub)
      (p.runAssignment x.1 f m₁) (p.runAssignment x.1 f m₂) := by
  obtain ⟨visits, -, hvisits, hrun⟩ := hx.places.runAssignment_eq hx.fits hx.within
  obtain ⟨s, hs, -⟩ := hx.fits.declared
  have hstored := Symbols.shapes_eq hs
  rw [hrun m₁ (h.left.contains hstored), hrun m₂ (h.right.contains hstored)]
  refine (Lockstep.orFault (h.runElements hx.fits (fun idx hidx => ((hvisits idx).mp hidx).1)
    fun idx hidx => ?_)).mono fun _ _ h => h.mono fun name sub hP => hP.imp_right ?_
  · exact hreads idx ((hvisits idx).mp hidx).1 ((hvisits idx).mp hidx).2
  · rintro ⟨y, hy, hname, idx, hown, hat⟩
    rw [List.mem_singleton] at hy
    subst hy
    exact ⟨hname, idx, hown, (hvisits idx).mpr ⟨(Node.own?_eq_some_iff.mp hown).2, hat⟩⟩

/-- A list of assignments in which reads are known runs in step from memories that are alike at the
cells that are known. -/
theorem runAssignments {p : Program} {f : Int} {l xs : List (Assignment × Clause)}
    (hxs : ∀ x ∈ xs, Executes K p find f x) (hreads : ReadsKnown P f (l ++ xs))
    (h : Memory.Alike find.shapes (fun name sub => P name sub ∨ WrittenBy f l name sub) m₁ m₂)
    (i : Nat) :
    Lockstep (Memory.Alike find.shapes fun name sub => P name sub ∨ WrittenBy f (l ++ xs) name sub)
      (p.runAssignments f i (xs.map Prod.fst) m₁) (p.runAssignments f i (xs.map Prod.fst) m₂) := by
  induction xs generalizing l m₁ m₂ i with
  | nil => exact .ok (by rwa [List.append_nil])
  | cons x xs ih =>
    have hsplit : l ++ x :: xs = (l ++ [x]) ++ xs := by simp
    rw [List.map_cons, Program.runAssignments, Program.runAssignments]
    refine ((h.runAssignment (hxs x (.head _)) (hreads l x xs rfl)).inContext _).bind
      fun n₁ n₂ hn => ?_
    rw [hsplit]
    refine ih (fun y hy => hxs y (List.mem_cons_of_mem _ hy)) (hsplit ▸ hreads) (hn.mono ?_) (i + 1)
    intro name sub hP
    rwa [writtenBy_append, ← or_assoc] at hP

end Memory.Alike

/-! ## Lowered programs -/

/-- The cells of the inputs. -/
def Symbols.OfInput (find : Symbols) (name : String) : Prop :=
  ∃ s, find name = some s ∧ s.role.isInput = true

/-- The cells that are known once the shared loop has run up to a value. -/
def KnownUpTo (find : Symbols) (f : Int) (xs : List (Assignment × Clause)) (name : String)
    (sub : List Int) : Prop :=
  find.OfInput name ∨ ∃ g, 0 ≤ g ∧ g < f ∧ WrittenBy g xs name sub

/-- What a clause touches is of an input, or lies where an earlier clause writes. -/
theorem Ordered.touches {l r : List Clause} (h : Ordered find [] (l ++ c :: r))
    (hfits : c.Fits K find) {idx : List Int} (hidx : InRange c.target.shape idx) {name : String}
    {sub : List Int} (htouch : c.tree.Touches idx name sub) :
    find.OfInput name ∨ ∃ d ∈ l, name = d.name ∧ ∃ i, d.target.own? sub = some i := by
  obtain ⟨stored, hstored, hin⟩ := htouch.inRange hfits.typed (hfits.shape ▸ hidx)
  rw [Symbols.shapes, Option.map_eq_some_iff] at hstored
  obtain ⟨s, hs, rfl⟩ := hstored
  rcases (ordered_append.mp h).2.1 name htouch.mem_names s hs with hinput | hfilled
  · exact .inl ⟨s, hs, hinput⟩
  · obtain ⟨n, hn, hname, hown⟩ := hfilled sub hin
    rw [List.append_nil, List.mem_reverse, List.mem_map] at hn
    obtain ⟨d, hd, rfl⟩ := hn
    exact .inr ⟨d, hd, hname.symm, Option.isSome_iff_exists.mp hown⟩

theorem readsKnown_clauses {cs : List Clause} (hfits : ∀ c ∈ cs, c.Fits K find)
    (hloops : ∀ c ∈ cs, c.fuseAxis = none) (hordered : Ordered find [] cs) (f : Int) :
    ReadsKnown (KnownUpTo find f (cs.map fun c => (c.assignment, c))) f
      (cs.map fun c => (c.assignment, c)) := by
  intro l x r hsplit idx hidx _ name sub htouch
  obtain ⟨l, r', rfl, rfl, hr⟩ := List.map_eq_append_iff.mp hsplit
  obtain ⟨c, r, rfl, rfl, rfl⟩ := List.map_eq_cons_iff.mp hr
  rcases hordered.touches (hfits c (by simp)) hidx htouch with hinput | ⟨d, hd, rfl, i, hown⟩
  · exact .inl (.inl hinput)
  · refine .inr ⟨_, List.mem_map_of_mem hd, rfl, i, hown, ?_⟩
    show AtShared d.fuseAxis f i
    rw [hloops d (by simp [hd])]
    exact atShared_none f i

/-- Clauses that are bound to no loop write the same cells at all of its values. -/
theorem writtenBy_clauses {cs : List Clause} (hloops : ∀ c ∈ cs, c.fuseAxis = none) {f : Int} (g : Int)
    {name : String} {sub : List Int} (h : WrittenBy f (cs.map fun c => (c.assignment, c)) name sub) :
    WrittenBy g (cs.map fun c => (c.assignment, c)) name sub := by
  obtain ⟨x, hx, hname, idx, hown, -⟩ := h
  refine ⟨x, hx, hname, idx, hown, ?_⟩
  obtain ⟨c, hc, rfl⟩ := List.mem_map.mp hx
  rw [show c.assignment.fuseAxis = none from hloops c hc]
  exact atShared_none g idx

/-- When cells agree on the inputs and where something has been written, they agree after the clauses
also where these write. -/
theorem Ordered.runClauses_eq {cs : List Clause} {written : List Node} (hordered : Ordered find written cs)
    (hfits : ∀ c ∈ cs, c.Fits K find) {σ τ : Cells α} (hP : ∀ name stored sub,
      find.shapes name = some stored → InRange stored sub →
      find.OfInput name ∨ Covers written name sub → P name sub)
    (h : ∀ name sub, P name sub → σ name sub = τ name sub) {name : String} {sub : List Int}
    (hsub : P name sub ∨ Covers (cs.map Clause.target) name sub) :
    runClauses cs σ name sub = runClauses cs τ name sub := by
  induction cs generalizing written P σ τ with
  | nil => exact h name sub (hsub.resolve_right fun ⟨n, hn, _⟩ => by cases hn)
  | cons c cs ih =>
    have hc := hfits c (.head _)
    rw [runClauses_cons, runClauses_cons]
    refine ih (P := fun name sub => P name sub ∨ Covers [c.target] name sub) hordered.2
      (fun d hd => hfits d (List.mem_cons_of_mem _ hd))
      (fun name stored sub hstored hsub hknown => ?_) (fun name sub hknown => ?_) ?_
    · rw [covers_cons] at hknown
      rcases hknown with hknown | hown | hknown
      · exact .inl (hP name stored sub hstored hsub (.inl hknown))
      · exact .inr (covers_cons.mpr (.inl hown))
      · exact .inl (hP name stored sub hstored hsub (.inr hknown))
    · have hother : (name = c.name → c.target.own? sub = none) → P name sub := fun hnot =>
        hknown.resolve_right fun hcovers => by
          rcases covers_cons.mp hcovers with ⟨hname, hown⟩ | ⟨n, hn, -⟩
          · rw [hnot hname.symm] at hown
            cases hown
          · cases hn
      by_cases hname : name = c.name
      · subst hname
        cases hown : c.target.own? sub with
        | none => rw [Clause.step_not_own hown, Clause.step_not_own hown, h _ _ (hother fun _ => hown)]
        | some idx =>
          rw [Clause.step_own hown, Clause.step_own hown]
          have hidx : InRange c.tree.shape idx := hc.shape ▸ (Node.own?_eq_some_iff.mp hown).2
          refine Tree.eval_congr K.admits_nonneg hc.typed hidx fun name' sub' htouch => h name' sub' ?_
          obtain ⟨stored, hstored, hin⟩ := htouch.inRange hc.typed hidx
          obtain ⟨s, hs, rfl⟩ := Option.map_eq_some_iff.mp hstored
          refine hP name' s.shape sub' hstored hin ?_
          exact (hordered.1 name' htouch.mem_names s hs).imp (fun hinput => ⟨s, hs, hinput⟩)
            fun hfilled => hfilled sub' hin
      · rw [Clause.step_of_ne hname, Clause.step_of_ne hname, h _ _ (hother fun heq => absurd heq hname)]
    · rcases hsub with hsub | hsub
      · exact .inl (.inl hsub)
      · rw [List.map_cons, covers_cons] at hsub
        exact hsub.elim (fun hown => .inl (.inr (covers_cons.mpr (.inl hown)))) .inr

namespace Pass.Bound

variable {q : Program} {cs : List Clause} {extent : Int} {axes : List Nat}

/-- A slice only reads slices at its own value of the shared loop. -/
theorem readsKnown (h : Bound K q cs extent axes) (hordered : Ordered q.find [] cs) (f : Int) :
    ReadsKnown (KnownUpTo q.find f (boundTo cs axes)) f (boundTo cs axes) := by
  intro l x r hsplit idx hidx hat name sub htouch
  have hmem : ∀ y ∈ l ++ x :: r, y ∈ boundTo cs axes := fun y hy => hsplit ▸ hy
  obtain ⟨k, hk, hc, hshares⟩ := h.mem_boundTo (hmem x (by simp))
  have hcs : cs = l.map Prod.snd ++ x.2 :: r.map Prod.snd := by
    rw [← h.map_snd_boundTo, hsplit, List.map_append, List.map_cons]
  rw [hcs] at hordered
  rcases hordered.touches (h.fits _ hc) hidx htouch with hinput | ⟨d, hd, rfl, i, hown⟩
  · exact .inl (.inl hinput)
  obtain ⟨y, hy, rfl⟩ := List.mem_map.mp hd
  obtain ⟨j, hj, hcy, hwrites⟩ := h.mem_boundTo (hmem y (by simp [hy]))
  refine .inr ⟨y, hy, rfl, i, hown, fun a ha => ?_⟩
  rw [hj] at ha
  cases ha
  rw [← hwrites.write hown, hshares.read hidx (List.mem_map_of_mem hcy) htouch]
  exact hat k (by rw [hk]; rfl)

/-- The shared loop runs in step from memories that agree on the inputs. -/
theorem runFused_alike (h : Bound K q cs extent axes) (hordered : Ordered q.find [] cs)
    (haligned : ∀ c ∈ cs, c.tree.Aligned c.target) {n : Nat} {f : Int} (lo : 0 ≤ f)
    (hi : f + n ≤ extent)
    (hm : Memory.Alike q.find.shapes (KnownUpTo q.find f (boundTo cs axes)) m₁ m₂) :
    Lockstep (Memory.Alike q.find.shapes (KnownUpTo q.find (f + n) (boundTo cs axes)))
      ((shared q extent axes).runFused n f m₁) ((shared q extent axes).runFused n f m₂) := by
  induction n generalizing f m₁ m₂ with
  | zero => exact .ok (by simpa using hm)
  | succ n ih =>
    rw [Program.runFused, Program.runFused, map_fst_boundTo h.laid]
    refine Lockstep.bind (Memory.Alike.runAssignments (l := []) (h.executes haligned lo (by omega))
      (h.readsKnown hordered f) (hm.mono fun name sub hP => hP.resolve_right fun hx => ?_) 0)
      fun n₁ n₂ hn => ?_
    · obtain ⟨_, hx, _⟩ := hx
      exact absurd hx List.not_mem_nil
    have hsum : f + (n + 1 : Nat) = f + 1 + n := by omega
    rw [hsum]
    refine ih (by omega) (by omega) (hn.mono fun name sub hP => ?_)
    rcases hP with hinput | ⟨g, hg, hlt, hwritten⟩
    · exact .inl (.inl hinput)
    · by_cases hgf : g = f
      · subst hgf
        exact .inr hwritten
      · exact .inl (.inr ⟨g, hg, by omega, hwritten⟩)

end Pass.Bound

/-- The clauses of a sound program write all cells of their destinations. -/
theorem Sound.exists_writes {cs : List Clause} (h : Sound K find cs) (hc : c ∈ cs) {s : Symbol}
    (hs : find c.name = some s) {sub : List Int} (hsub : InRange s.shape sub) :
    ∃ d ∈ cs, c.name = d.name ∧ ∃ idx, d.target.own? sub = some idx := by
  obtain ⟨n, hn, hname, hown⟩ := h.filled c hc s hs sub hsub
  obtain ⟨d, hd, rfl⟩ := List.mem_map.mp hn
  exact ⟨d, hd, hname.symm, Option.isSome_iff_exists.mp hown⟩

namespace Lowered

variable {p : Typed.Program} {r q : Program} {cs : List Clause}

/-- A lowered program runs in step from memories that agree on the inputs, and afterwards they agree
on all that it writes. -/
theorem run_alike (h : Lowered K p r q cs)
    (hm : Memory.Alike q.find.shapes (fun name _ => q.find.OfInput name) m₁ m₂) :
    Lockstep (Memory.Alike q.find.shapes fun name _ => ∃ c ∈ cs, c.name = name) (r.run m₁) (r.run m₂) := by
  have hsound := h.stage.sound
  have haligned : ∀ c ∈ cs, c.tree.Aligned c.target := fun c hc => (h.direct c hc).aligned
  have hstart : ∀ f ≤ 0, ∀ xs, Memory.Alike q.find.shapes (KnownUpTo q.find f xs) m₁ m₂ := fun f hf xs =>
    hm.mono fun name sub hP => hP.resolve_right fun ⟨g, hg, hlt, _⟩ => by omega
  -- each cell of a destination is in range of some clause, which has written it
  suffices H : ∃ n xs, Lockstep (Memory.Alike q.find.shapes (KnownUpTo q.find n xs)) (r.run m₁)
      (r.run m₂) ∧ ∀ c ∈ cs, ∀ stored sub, q.find.shapes c.name = some stored → InRange stored sub →
        ∀ idx, c.target.own? sub = some idx → KnownUpTo q.find n xs c.name sub by
    obtain ⟨n, xs, hrun, hknown⟩ := H
    refine hrun.mono fun n₁ n₂ hn => ⟨hn.left, hn.right, ?_⟩
    rintro _ stored sub hS hsub ⟨c, hc, rfl⟩
    obtain ⟨s, hs, -⟩ := (hsound.fits c hc).declared
    obtain rfl : s.shape = stored := Option.some.inj ((Symbols.shapes_eq hs).symm.trans hS)
    obtain ⟨d, hd, hname, idx, hown⟩ := hsound.exists_writes hc hs hsub
    exact hn.cells c.name s.shape sub hS hsub
      (hname ▸ hknown d hd s.shape sub (hname ▸ hS) hsub idx hown)
  rcases h.fused with rfl | ⟨extent, axes, rfl, hbound⟩
  · refine ⟨1, cs.map fun c => (c.assignment, c), ?_, fun c hc stored sub _ _ idx hown => ?_⟩
    · have hrun := Memory.Alike.runAssignments
        (h.stage.laid.executes h.stage.loops hsound.fits haligned (-1))
        (readsKnown_clauses hsound.fits h.stage.loops hsound.ordered (-1))
        ((hstart (-1) (by omega) _).mono fun name sub hP =>
          hP.resolve_right fun ⟨_, hx, _⟩ => absurd hx List.not_mem_nil) 0
      rw [Program.run, Program.run, h.stage.fusion, h.stage.laid.assignments]
      rw [List.map_map] at hrun
      refine hrun.mono fun n₁ n₂ hn => hn.mono fun name sub hP => ?_
      rcases hP with hinput | ⟨g, -, -, hwritten⟩
      · exact .inl (.inl hinput)
      · exact .inr (writtenBy_clauses h.stage.loops (-1) hwritten)
    · refine .inr ⟨0, Int.le_refl 0, by omega, _, List.mem_map_of_mem hc, rfl, idx, hown, ?_⟩
      show AtShared c.fuseAxis 0 idx
      rw [h.stage.loops c hc]
      exact atShared_none 0 idx
  · have hpos := hbound.pos
    refine ⟨0 + (extent.toNat : Int), Pass.boundTo cs axes, hbound.runFused_alike hsound.ordered haligned
      (Int.le_refl 0) (by omega) (hstart 0 (Int.le_refl 0) _), fun c hc stored sub hS hsub idx hown => ?_⟩
    obtain ⟨x, hx, rfl⟩ := List.mem_map.mp (hbound.map_snd_boundTo ▸ hc)
    obtain ⟨k, hk, -, hshares⟩ := hbound.mem_boundTo hx
    obtain ⟨s, rest, hs, hshape⟩ := hshares.stored
    obtain rfl : s.shape = stored := Option.some.inj ((Symbols.shapes_eq hs).symm.trans hS)
    rw [hshape] at hsub
    cases hsub with
    | cons lo hi _ =>
      refine .inr ⟨_, lo, by omega, x, hx, rfl, idx, hown, fun j hj => ?_⟩
      rw [hk] at hj
      cases hj
      exact (hshares.write hown).symm

end Lowered

/-- What a lowered program leaves in the tensors that it writes depends on its inputs only: runs from
memories that agree on the inputs stop with one failure or leave the same contents. When all tensors
have fewer than `2^63` elements they do not fail. -/
theorem run_determined {p : Typed.Program} (hvalid : p.Valid) (hcoh : p.Coherent) (fuse : Bool) :
    ∃ q, lower p fuse = .ok q ∧ ∀ m₁ m₂ : Memory α, m₁.Formed q.find.shapes → m₂.Formed q.find.shapes →
      (∀ name, q.find.OfInput name → m₁.get? name = m₂.get? name) →
      Lockstep (fun n₁ n₂ => ∀ a ∈ q.assignments, ∃ dst t, q.dst? a = some dst ∧
        n₁.get? dst.name = some t ∧ n₂.get? dst.name = some t) (q.run m₁) (q.run m₂) ∧
      ((∀ name s, q.find name = some s → Shape.count s.shape < 0x8000000000000000) →
        ∃ n, q.run m₁ = .ok n) := by
  obtain ⟨r, q, cs, hlower, h⟩ := lower_spec hvalid hcoh
    (Typed.Program.Valid.checked hvalid p.within_positive) fuse
  refine ⟨r, hlower, fun m₁ m₂ hm₁ hm₂ hinput => ?_⟩
  rw [h.find_eq] at hm₁ hm₂ hinput ⊢
  refine ⟨(h.run_alike ⟨hm₁, hm₂, fun name stored sub _ _ hP => ?_⟩).mono fun n₁ n₂ hn a ha => ?_,
    fun hcount => ?_⟩
  · rw [cellsOf, cellsOf, hinput name hP]
  · obtain ⟨c, hc, hplaces⟩ := h.exists_clause ha
    obtain ⟨s, hs, -⟩ := (h.stage.sound.fits c hc).declared
    have hS := Symbols.shapes_eq hs
    obtain ⟨t₁, ht₁, hdims₁, hsize₁⟩ := hn.left c.name s.shape hS
    obtain ⟨t₂, ht₂, hdims₂, hsize₂⟩ := hn.right c.name s.shape hS
    have heq : t₁ = t₂ := Tensor.ext_of_formed (Typed.positive.pos (h.stage.sound.symbols _ _ hs)) hdims₁ hdims₂
      hsize₁ hsize₂ fun sub hsub => by
        have := hn.cells c.name s.shape sub hS hsub ⟨c, hc, rfl⟩
        rwa [cellsOf, cellsOf, ht₁, ht₂] at this
    exact ⟨c.target, t₁, hplaces.dst?_eq, ht₁, heq ▸ ht₂⟩
  · have hpos : ∀ name stored, q.find.shapes name = some stored →
        (∀ d ∈ stored, 0 < d) ∧ Shape.count stored < 0x8000000000000000 := by
      intro name stored hS
      rw [Symbols.shapes, Option.map_eq_some_iff] at hS
      obtain ⟨s, hs, rfl⟩ := hS
      exact ⟨Typed.positive.pos (h.stage.sound.symbols name s hs), hcount name s hs⟩
    obtain ⟨n, hn, -⟩ := h.run_spec (fun name stored hS =>
      Int.le_of_lt (hpos name stored hS).2) (hm₁.fits hpos)
    exact ⟨n, hn⟩

/-- The tensors of the lowered program of `symmetrized`, with one value in all of the copy of `a`. -/
def symmetrizedMemory (v : Float) : Memory Float :=
  ⟨[("x", ⟨[2], #[1, 2]⟩), ("a", ⟨[2, 2], #[1, 2, 3, 4]⟩), ("old0", ⟨[2, 2], #[v, v, v, v]⟩)]⟩

/-- The symbols of the lowered program of `symmetrized`. -/
def symmetrizedSymbols : SymbolTable :=
  ⟨⟨[("x", ⟨"x", [2], .input⟩), ("a", ⟨"a", [2, 2], .inout⟩),
    ("old0", ⟨"old0", [2, 2], .synthesized⟩)]⟩⟩

theorem lower_symmetrized {q : Program} (h : lower symmetrized true = .ok q) : q.symbols = symmetrizedSymbols ∧
    ∀ a ∈ q.assignments, ∀ n ∈ (q.tree a.expr).labels, n.kind ≠ .constant := by
  have hlower : (lower symmetrized true).toOption.map (fun q => (q.symbols,
      decide (∀ a ∈ q.assignments, ∀ n ∈ (q.tree a.expr).labels, n.kind ≠ .constant))) =
        some (symmetrizedSymbols, true) := by decide +kernel
  rw [h] at hlower
  exact (Prod.mk.inj (Option.some.inj hlower)).imp_right of_decide_eq_true

theorem symmetrizedSymbols_cases {name : String} {s : Symbol}
    (h : symmetrizedSymbols.find? name = some s) :
    s = ⟨"x", [2], .input⟩ ∧ name = "x" ∨ s = ⟨"a", [2, 2], .inout⟩ ∧ name = "a" ∨
      s = ⟨"old0", [2, 2], .synthesized⟩ ∧ name = "old0" := by
  rw [SymbolTable.find?, OrderedMap.get?, Option.map_eq_some_iff] at h
  obtain ⟨e, he, rfl⟩ := h
  have hkey := List.find?_some he
  have hmem := List.mem_of_find?_eq_some he
  simp only [symmetrizedSymbols, List.mem_cons, List.not_mem_nil, or_false] at hmem
  rcases hmem with rfl | rfl | rfl <;> simp_all

theorem symmetrizedMemory_formed (v : Float) :
    (symmetrizedMemory v).Formed (Symbols.shapes symmetrizedSymbols.find?) := by
  intro name stored hS
  rw [Symbols.shapes, Option.map_eq_some_iff] at hS
  obtain ⟨s, hs, rfl⟩ := hS
  rcases symmetrizedSymbols_cases hs with ⟨rfl, rfl⟩ | ⟨rfl, rfl⟩ | ⟨rfl, rfl⟩
  · exact ⟨_, rfl, rfl, rfl⟩
  · exact ⟨_, rfl, rfl, rfl⟩
  · exact ⟨_, rfl, rfl, rfl⟩

theorem symmetrizedMemory_input (v w : Float) (name : String)
    (h : Symbols.OfInput symmetrizedSymbols.find? name) :
    (symmetrizedMemory v).get? name = (symmetrizedMemory w).get? name := by
  obtain ⟨s, hs, hrole⟩ := h
  rcases symmetrizedSymbols_cases hs with ⟨rfl, rfl⟩ | ⟨rfl, rfl⟩ | ⟨rfl, rfl⟩
  · rfl
  · rfl
  · cases hrole

/-- Whatever the copy of the matrix holds at first, the same is left in the matrix. -/
theorem run_determined_symmetrized : symmetrized.Valid ∧ symmetrized.Coherent ∧
    ∃ q n₁ n₂, lower symmetrized true = .ok q ∧ (symmetrizedMemory 0).Formed q.find.shapes ∧
      (symmetrizedMemory 7).Formed q.find.shapes ∧
      (∀ name, q.find.OfInput name →
        (symmetrizedMemory 0).get? name = (symmetrizedMemory 7).get? name) ∧
      q.run (symmetrizedMemory 0) = .ok n₁ ∧ q.run (symmetrizedMemory 7) = .ok n₂ ∧
      ∀ a ∈ q.assignments, ∃ dst t, q.dst? a = some dst ∧ n₁.get? dst.name = some t ∧
        n₂.get? dst.name = some t := by
  obtain ⟨q, hlower, hrun⟩ :=
    run_determined (α := Float) symmetrized_valid symmetrized_coherent true
  have hfind : q.find = symmetrizedSymbols.find? := by
    rw [Program.find, (lower_symmetrized hlower).1]
  have hformed : ∀ v, (symmetrizedMemory v).Formed q.find.shapes := fun v =>
    hfind ▸ symmetrizedMemory_formed v
  have hinput : ∀ name, q.find.OfInput name →
      (symmetrizedMemory 0).get? name = (symmetrizedMemory 7).get? name := fun name h =>
    symmetrizedMemory_input 0 7 name (hfind ▸ h)
  obtain ⟨hstep, hends⟩ := hrun _ _ (hformed 0) (hformed 7) hinput
  obtain ⟨n₁, hn₁⟩ := hends fun name s hs => by
    rw [hfind] at hs
    rcases symmetrizedSymbols_cases hs with ⟨rfl, -⟩ | ⟨rfl, -⟩ | ⟨rfl, -⟩ <;> decide
  rw [hn₁] at hstep
  generalize hn₂ : q.run (symmetrizedMemory 7) = y at hstep
  cases hstep with
  | ok hsame => exact ⟨symmetrized_valid, symmetrized_coherent, q, n₁, _, hlower, hformed 0, hformed 7,
      hinput, hn₁, hn₂, hsame⟩

end LoopNest
