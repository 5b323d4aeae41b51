import LoopNest.Pass.Fuse
import LoopNest.Proofs.Edit
import LoopNest.Proofs.Execution

/-!
# The shared loop

`fuse` binds all assignments to one outermost loop when, in each of them, one axis of the result
subscripts the first axis of every tensor that the program writes (`Shares`). Running the slices of
all assignments at one value of the shared loop after the other then does what running the
assignments one after the other does (`runLoop_agree`): a slice only reads slices at its own value.
-/

namespace LoopNest.Pass

variable {K : ShapeClass} {N : NodeClass} {p : Program} {find : Symbols} {c : Clause}

/-! ## Clauses that share a loop -/

/-- By the names of its accesses, the axis `k` of the result of a clause subscripts the first axis of
its destination, which has the given extent, and of every written tensor that it reads. -/
structure Leads (find : Symbols) (written : List String) (extent : Int) (c : Clause) (k : Nat) :
    Prop where
  stored : ∃ s rest, find c.name = some s ∧ s.shape = extent :: rest
  axis : c.target.shape[k]? = some extent
  write : ∃ write, c.target.subscript .fixed (IndexName.results c.target.shape.length) = some write ∧
    write.head? = some (.result k)
  reads : ∃ reads next,
    c.tree.readsAt .fixed .sum (IndexName.results c.target.shape.length) 0 = some (reads, next) ∧
    ∀ acc ∈ reads, acc.name ∈ written → acc.index.head? = some (.result k)

/-- The axis `k` of the result of a clause subscripts the first axis of its destination, which has
the given extent, and of every written tensor that it reads. -/
structure Shares (find : Symbols) (written : List String) (extent : Int) (c : Clause) (k : Nat) :
    Prop where
  stored : ∃ s rest, find c.name = some s ∧ s.shape = extent :: rest
  axis : c.target.shape[k]? = some extent
  write : ∀ {sub idx}, c.target.own? sub = some idx → sub.head? = idx[k]?
  read : ∀ {idx name sub}, InRange c.target.shape idx → name ∈ written →
    c.tree.Touches idx name sub → sub.head? = idx[k]?

/-- An index name stands for the element at its axis, if it is the name of an axis. -/
def Stands (l : List Int) (i : IndexName) (v : Int) : Prop := ∀ k ∈ i.axis?, l[k]? = some v

theorem stands_results (l : List Int) :
    List.Forall₂ (Stands l) (IndexName.results l.length) l := by
  refine List.forall₂_iff_get.mpr ⟨by simp [IndexName.results], fun k _ hk => ?_⟩
  intro j hj
  simp only [IndexName.results, List.get_eq_getElem, List.getElem_map, List.getElem_range] at hj
  cases hj
  exact List.getElem?_eq_getElem hk

theorem stands_fixed (l fixed : List Int) {vs : List Int} (h : vs.length = fixed.length) :
    List.Forall₂ (Stands l) (fixed.map IndexName.fixed) vs := by
  refine List.forall₂_iff_get.mpr ⟨by simp [h], fun k _ _ j hj => ?_⟩
  simp [IndexName.axis?] at hj

theorem head?_of_stands {l vs : List Int} {is : List IndexName} {k : Nat}
    (h : List.Forall₂ (Stands l) is vs) (hhead : is.head? = some (.result k)) :
    vs.head? = l[k]? := by
  cases h with
  | nil => cases hhead
  | cons h _ =>
    cases hhead
    rw [List.head?_cons, h k rfl]

/-- When the search finds an axis, the clause has it in front. -/
theorem sharedAxis_spec {a : Assignment} (h : p.Places a c) (hfits : c.Fits N find) {s : Symbol}
    (hs : find c.name = some s) {d : Int} {rest : Shape} (hshape : s.shape = d :: rest)
    (written : List String) :
    ∃ res, sharedAxis p written a = some res ∧ ∀ k, res = some k → Leads find written d c k := by
  obtain ⟨s', hs', hviews, -⟩ := hfits.declared
  rw [hs] at hs'
  cases hs'
  obtain ⟨write, reads, next, haccesses, hwrite, hreads, -⟩ :=
    h.accesses_spec hfits (P := fun _ => True) (fun _ => trivial) (fun _ => trivial) fun _ _ => trivial
  obtain ⟨lead, hfwd, hlead⟩ := hviews
  -- the subscript of the write stands for the stored extents, at the extents of the result
  have hstored : List.Forall₂ (Stands c.target.shape) write s.shape := by
    obtain ⟨sub, hsub, hrel⟩ := backward_rel (List.rel_append
      (stands_fixed c.target.shape c.target.fixed hlead.length_eq.symm)
      (stands_results c.target.shape)) hwrite
    rw [backward_eq_some_of_forward hfwd] at hsub
    cases hsub
    exact hrel
  rw [hshape] at hstored
  cases hstored with
  | @cons i _ is _ hi _ =>
    simp only [sharedAxis, haccesses, Option.bind_eq_bind, Option.bind_some, List.head?_cons]
    cases haxis : i.axis? with
    | none => exact ⟨none, rfl, by simp⟩
    | some k =>
      refine ⟨_, rfl, fun j hj => ?_⟩
      split at hj
      · rename_i hall
        cases hj
        have hi' : i = .result k := by
          cases i with
          | result j =>
            cases haxis
            rfl
          | sum t => cases haxis
          | fixed v => cases haxis
        subst hi'
        refine ⟨⟨s, rest, hs, hshape⟩, hi k haxis, ⟨_, hwrite, rfl⟩, ⟨_, _, hreads, ?_⟩⟩
        intro acc hacc hname
        have hhead := List.all_eq_true.mp hall acc (List.mem_cons_of_mem _ hacc)
        rw [List.contains_iff_mem.mpr hname] at hhead
        simpa using hhead
      · cases hj

/-- A clause that has an axis in front shares the loop along it. -/
theorem Leads.shares {written : List String} {extent : Int} {k : Nat}
    (h : Leads find written extent c k) (hfits : c.Fits K find) : Shares find written extent c k := by
  obtain ⟨write, hwrite, hfirst⟩ := h.write
  obtain ⟨reads, next, hreads, hall⟩ := h.reads
  refine ⟨h.stored, h.axis, fun {sub idx} hown => ?_, fun {idx name sub} hidx hname htouch => ?_⟩
  · obtain ⟨hsub, hidx⟩ := Node.own?_eq_some_iff.mp hown
    rw [← hidx.length_eq] at hwrite
    obtain ⟨sub', hsub', hrel⟩ := backward_rel (List.rel_append
      (stands_fixed idx c.target.fixed rfl) (stands_results idx)) hwrite
    rw [Node.subscript, List.map_id, show backward _ _ = _ from hsub'] at hsub
    cases hsub
    exact head?_of_stands hrel hfirst
  · rw [← hidx.length_eq] at hreads
    obtain ⟨acc, hacc, hname', hrel⟩ := htouch.exists_access (R := fun i v => Stands idx i v)
      (fun v k hk => by simp [IndexName.axis?] at hk)
      (fun t v k hk => by simp [IndexName.axis?] at hk) hfits.typed (stands_results idx) hreads
    exact head?_of_stands hrel (hall acc hacc (hname'.symm ▸ hname))

/-- The axes that the search finds for all assignments, once the extent is known. -/
theorem sharedAxes_spec {cs : List Clause} (hlaid : p.Laid cs) {rest : List Clause}
    (hrest : ∀ c ∈ rest, c ∈ cs) (hfits : ∀ c ∈ cs, c.Fits N p.find) (written : List String)
    {extent : Int} (hextent : 0 ≤ extent) :
    ∃ res, sharedAxes p written extent (rest.map Clause.assignment) = some res ∧
      ∀ axes e, res = some (axes, e) →
        e = extent ∧ List.Forall₂ (Leads p.find written extent) rest axes := by
  induction rest with
  | nil =>
    refine ⟨_, rfl, fun axes e h => ?_⟩
    cases h
    exact ⟨rfl, .nil⟩
  | cons c rest ih =>
    have hc := hrest c (.head _)
    obtain ⟨s, hs, -⟩ := (hfits c hc).declared
    have hstored : (p.storedShape? c.target).getD [] = s.shape := by
      rw [Program.storedShape?, show p.symbols.find? c.target.name = some s from hs]
      rfl
    rw [List.map_cons, sharedAxes, hlaid.dst?_eq hc, Option.bind_eq_bind, Option.bind_some, hstored]
    cases hshape : s.shape with
    | nil => exact ⟨none, rfl, fun _ _ h => by cases h⟩
    | cons d dims =>
      by_cases hd : d = extent
      · subst hd
        obtain ⟨axis, haxis, hleads⟩ := sharedAxis_spec (hlaid.places hc) (hfits c hc) hs hshape written
        obtain ⟨res, hres, hall⟩ := ih fun e he => hrest e (List.mem_cons_of_mem _ he)
        simp only [ne_eq, not_true_eq_false, decide_false, Bool.and_false, Bool.false_eq_true,
          if_false, haxis, hres, Option.bind_eq_bind, Option.bind_some]
        cases axis with
        | none => exact ⟨none, rfl, fun _ _ h => by cases h⟩
        | some k =>
          cases res with
          | none => exact ⟨none, rfl, fun _ _ h => by cases h⟩
          | some res =>
            obtain ⟨axes, e⟩ := res
            obtain ⟨rfl, hforall⟩ := hall axes e rfl
            refine ⟨_, rfl, fun axes' e' h => ?_⟩
            cases h
            exact ⟨rfl, .cons (hleads k rfl) hforall⟩
      · simp [hextent, hd]

/-- Clauses that are bound to a shared loop, with the axes that are bound to it. -/
structure Bound (K : ShapeClass) (p : Program) (cs : List Clause) (extent : Int) (axes : List Nat) :
    Prop where
  laid : p.Laid cs
  fits : ∀ c ∈ cs, c.Fits K p.find
  nonempty : cs ≠ []
  pos : 0 < extent
  shares : List.Forall₂ (Shares p.find (cs.map Clause.name) extent) cs axes

/-- The program with all assignments bound to a shared loop. -/
def shared (p : Program) (extent : Int) (axes : List Nat) : Program :=
  { p with
    assignments := (p.assignments.zip axes).map fun (a, axis) => { a with fuseAxis := some axis },
    fusion := some extent }

theorem sharedAxes_length {written : List String} {extent e : Int} {as : List Assignment}
    {axes : List Nat} (h : sharedAxes p written extent as = some (some (axes, e))) :
    axes.length = as.length := by
  induction as generalizing extent axes with
  | nil =>
    cases h
    rfl
  | cons a as ih =>
    rw [sharedAxes, Option.bind_eq_bind, Option.bind_eq_some_iff] at h
    obtain ⟨dst, -, h⟩ := h
    split at h
    · cases h
    · split at h
      · cases h
      · obtain ⟨axis, -, h⟩ := Option.bind_eq_some_iff.mp h
        cases axis with
        | none => cases h
        | some axis =>
          obtain ⟨rest, hrest, h⟩ := Option.bind_eq_some_iff.mp h
          cases rest with
          | none => cases h
          | some rest =>
            cases h
            exact congrArg (· + 1) (ih hrest)

/-- A program that has been fused has all assignments bound to a shared loop. -/
theorem fuse_eq_shared {q : Program} (h : fuse p = some (true, q)) :
    ∃ extent axes, q = shared p extent axes ∧ axes.length = p.assignments.length := by
  rw [fuse] at h
  split at h
  · cases h
  · obtain ⟨written, -, h⟩ := Option.bind_eq_some_iff.mp h
    obtain ⟨res, hres, h⟩ := Option.bind_eq_some_iff.mp h
    cases res with
    | none => cases h
    | some res =>
      cases h
      exact ⟨res.2, res.1, rfl, sharedAxes_length hres⟩

/-- The names of the tensors that a program writes, in order. -/
theorem mapM_name {cs : List Clause} (hlaid : p.Laid cs) :
    p.assignments.mapM (fun a => (p.dst? a).map (·.name)) = some (cs.map Clause.name) := by
  rw [hlaid.assignments, List.mapM_map]
  exact mapM_eq_some_map fun c hc => by
    rw [Function.comp_apply, hlaid.dst?_eq hc, Option.map_some]

/-- The pass leaves the program as it is, or binds each assignment to one loop by an axis that it has
in front. -/
theorem fuse_cases {cs : List Clause} (hlaid : p.Laid cs) (hfits : ∀ c ∈ cs, c.Fits N p.find)
    (hlengths : ∀ c ∈ cs, ∀ s, p.find c.name = some s → ∀ d ∈ s.shape.head?, 0 ≤ d) :
    fuse p = some (false, p) ∨
      ∃ extent axes, fuse p = some (true, shared p extent axes) ∧ cs ≠ [] ∧ 0 ≤ extent ∧
        List.Forall₂ (Leads p.find (cs.map Clause.name) extent) cs axes := by
  rw [fuse, mapM_name hlaid]
  by_cases hlen : p.assignments.length < 2
  · exact .inl (by simp [hlen])
  simp only [hlen, if_false, Option.bind_eq_bind, Option.bind_some]
  have hass := hlaid.assignments
  cases cs with
  | nil => simp [hass] at hlen
  | cons c rest =>
    have hc : c ∈ c :: rest := .head _
    obtain ⟨s, hs, -⟩ := (hfits c hc).declared
    have hstored : (p.storedShape? c.target).getD [] = s.shape := by
      rw [Program.storedShape?, show p.symbols.find? c.target.name = some s from hs]
      rfl
    rw [hass]
    simp only [List.map_cons, sharedAxes, hlaid.dst?_eq hc, Option.bind_eq_bind, Option.bind_some, hstored]
    cases hshape : s.shape with
    | nil => exact .inl rfl
    | cons d dims =>
      have hnonneg : 0 ≤ d := hlengths c hc s hs d (by rw [hshape]; rfl)
      obtain ⟨axis, haxis, hleads⟩ :=
        sharedAxis_spec (hlaid.places hc) (hfits c hc) hs hshape ((c :: rest).map Clause.name)
      obtain ⟨res, hres, hall⟩ := sharedAxes_spec hlaid
        (fun e (he : e ∈ rest) => List.mem_cons_of_mem _ he) hfits ((c :: rest).map Clause.name) hnonneg
      rw [List.map_cons] at haxis hres
      simp only [haxis, hres, Option.bind_some]
      cases axis with
      | none => exact .inl rfl
      | some k =>
        cases res with
        | none => exact .inl rfl
        | some res =>
          obtain ⟨axes, e⟩ := res
          obtain ⟨rfl, hforall⟩ := hall axes e rfl
          refine .inr ⟨e, k :: axes, ?_, List.cons_ne_nil _ _, hnonneg, .cons (hleads k rfl) hforall⟩
          rw [shared, hass]
          rfl

/-- The pass succeeds. It leaves the program as it is, or binds all assignments to one loop. -/
theorem fuse_spec {cs : List Clause} (hlaid : p.Laid cs) (hfits : ∀ c ∈ cs, c.Fits K p.find) :
    fuse p = some (false, p) ∨
      ∃ extent axes, fuse p = some (true, shared p extent axes) ∧ Bound K p cs extent axes := by
  have hpos : ∀ c ∈ cs, ∀ s, p.find c.name = some s → ∀ d ∈ s.shape, 0 < d := by
    intro c hc s hs d hd
    obtain ⟨s', hs', hviews, -⟩ := (hfits c hc).declared
    rw [hs] at hs'
    cases hs'
    exact hviews.pos (hfits c hc).target_pos d hd
  refine (fuse_cases hlaid hfits fun c hc s hs d hd =>
    Int.le_of_lt (hpos c hc s hs d (List.mem_of_mem_head? hd))).imp_right ?_
  rintro ⟨extent, axes, hfuse, hne, -, hleads⟩
  refine ⟨extent, axes, hfuse, hlaid, hfits, hne, ?_, ?_⟩
  · obtain ⟨c, rest, rfl⟩ := List.exists_cons_of_ne_nil hne
    cases hleads with
    | cons hlead _ =>
      obtain ⟨s, rest', hs, hshape⟩ := hlead.stored
      exact hpos c (.head _) s hs extent (hshape ▸ .head _)
  · refine List.forall₂_iff_zip.mpr ⟨hleads.length_eq, fun {c k} hmem => ?_⟩
    exact ((List.forall₂_iff_zip.mp hleads).2 hmem).shares (hfits c (List.of_mem_zip hmem).1)

/-! ## Running the shared loop -/

variable {α : Type} [Scalar α] {cs : List Clause} {extent : Int} {axes : List Nat}

/-- The assignments that are bound to a shared loop, with their clauses. -/
def boundTo (cs : List Clause) (axes : List Nat) : List (Assignment × Clause) :=
  (cs.zip axes).map fun (c, k) => ({ c.assignment with fuseAxis := some k }, c)

/-- Runs all slices at `n` values of the shared loop, from `f` on. -/
def runLoop (n : Nat) (f : Int) (xs : List (Assignment × Clause)) (σ : Cells α) : Cells α :=
  match n with
  | 0 => σ
  | n + 1 => runLoop n (f + 1) xs (runSlices f xs σ)

theorem map_fst_boundTo (h : p.Laid cs) :
    (shared p extent axes).assignments = (boundTo cs axes).map Prod.fst := by
  rw [shared, h.assignments, boundTo, List.map_map, List.zip_map_left, List.map_map]
  rfl

namespace Bound

variable (h : Bound K p cs extent axes)
include h

/-- The clauses with their axes, one by one. -/
theorem mem_boundTo {x : Assignment × Clause} (hx : x ∈ boundTo cs axes) :
    ∃ k, x.1 = { x.2.assignment with fuseAxis := some k } ∧ x.2 ∈ cs ∧
      Shares p.find (cs.map Clause.name) extent x.2 k := by
  obtain ⟨⟨c, k⟩, hmem, rfl⟩ := List.mem_map.mp hx
  exact ⟨k, rfl, (List.of_mem_zip hmem).1, (List.forall₂_iff_zip.mp h.shares).2 hmem⟩

theorem map_snd_boundTo : (boundTo cs axes).map Prod.snd = cs := by
  rw [boundTo, List.map_map]
  exact List.map_fst_zip (Nat.le_of_eq h.shares.length_eq)

theorem places {x : Assignment × Clause} (hx : x ∈ boundTo cs axes) :
    (shared p extent axes).Places x.1 x.2 := by
  obtain ⟨k, hk, hc, -⟩ := h.mem_boundTo hx
  have hplaces := h.laid.places hc
  refine ⟨?_, ?_, hplaces.stored⟩
  · rw [hk]
    exact hplaces.target
  · rw [hk]
    rfl

theorem executes (haligned : ∀ c ∈ cs, c.tree.Aligned c.target) {f : Int} (lo : 0 ≤ f)
    (hi : f < extent) : ∀ x ∈ boundTo cs axes, Executes K (shared p extent axes) p.find f x := by
  intro x hx
  obtain ⟨k, hk, hc, hshares⟩ := h.mem_boundTo hx
  refine ⟨h.places hx, h.fits _ hc, haligned _ hc, fun j hj => ?_⟩
  rw [hk] at hj
  cases hj
  exact ⟨extent, hshares.axis, lo, hi⟩

/-- The cells of tensors that are written, at other values of the shared loop, are neither read nor
written by a slice. At the others a slice does what the clause does. -/
theorem runSlices_eq {f : Int} {σ τ : Cells α}
    (hcells : ∀ name sub, (name ∈ cs.map Clause.name → sub.head? = some f) → σ name sub = τ name sub)
    {xs : List (Assignment × Clause)} (hxs : ∀ x ∈ xs, x ∈ boundTo cs axes) :
    ∀ name sub, (name ∈ cs.map Clause.name → sub.head? = some f) →
      runSlices f xs σ name sub = runClauses (xs.map Prod.snd) τ name sub := by
  induction xs generalizing σ τ with
  | nil => exact hcells
  | cons x xs ih =>
    refine ih (fun name sub hsub => ?_) fun y hy => hxs y (List.mem_cons_of_mem _ hy)
    show x.2.stepOn _ σ name sub = x.2.step τ name sub
    obtain ⟨k, hk, hc, hshares⟩ := h.mem_boundTo (hxs x (.head _))
    by_cases hname : name = x.2.name
    · subst hname
      cases hown : x.2.target.own? sub with
      | none => rw [Clause.stepOn_not_own hown, Clause.step_not_own hown, hcells _ _ hsub]
      | some idx =>
        have hidx := (Node.own?_eq_some_iff.mp hown).2
        have hhead : idx[k]? = some f :=
          (hshares.write hown).symm.trans (hsub (List.mem_map_of_mem hc))
        rw [Clause.stepOn_own hown, Clause.step_own hown, if_pos]
        · have hfits := h.fits _ hc
          refine Tree.eval_congr K.admits_nonneg hfits.typed (hfits.shape ▸ hidx) fun n s htouch => ?_
          exact hcells n s fun hn => (hshares.read hidx hn htouch).trans hhead
        · intro j hj
          rw [hk] at hj
          cases hj
          exact hhead
    · rw [Clause.stepOn_of_ne hname, Clause.step_of_ne hname, hcells _ _ hsub]

/-- A slice leaves the cells at other values of the shared loop as they are, and the tensors that are
not written. -/
theorem runSlices_of_ne {f : Int} (σ : Cells α) {xs : List (Assignment × Clause)}
    (hxs : ∀ x ∈ xs, x ∈ boundTo cs axes) {name : String} {sub : List Int}
    (hsub : name ∈ cs.map Clause.name → sub.head? ≠ some f) :
    runSlices f xs σ name sub = σ name sub := by
  induction xs generalizing σ with
  | nil => rfl
  | cons x xs ih =>
    rw [runSlices_cons, ih _ fun y hy => hxs y (List.mem_cons_of_mem _ hy)]
    obtain ⟨k, hk, hc, hshares⟩ := h.mem_boundTo (hxs x (.head _))
    by_cases hname : name = x.2.name
    · subst hname
      cases hown : x.2.target.own? sub with
      | none => rw [Clause.stepOn_not_own hown]
      | some idx =>
        rw [Clause.stepOn_own hown, if_neg]
        intro hat
        exact hsub (List.mem_map_of_mem hc) ((hshares.write hown).trans (hat k (by rw [hk]; rfl)))
    · rw [Clause.stepOn_of_ne hname]

theorem runLoop_of_ne {n : Nat} {f : Int} (σ : Cells α) {name : String} {sub : List Int}
    (hsub : name ∈ cs.map Clause.name → ∀ g, f ≤ g → sub.head? ≠ some g) :
    runLoop n f (boundTo cs axes) σ name sub = σ name sub := by
  induction n generalizing f σ with
  | zero => rfl
  | succ n ih =>
    rw [runLoop, ih _ fun hname g hg => hsub hname g (by omega),
      h.runSlices_of_ne σ (fun _ hx => hx) fun hname => hsub hname f (Int.le_refl f)]

/-- The loop runs every slice of the tensors that are written. -/
theorem runLoop_eq {n : Nat} {f : Int} {σ τ : Cells α}
    (hcells : ∀ name sub, (name ∈ cs.map Clause.name → ∃ g, sub.head? = some g ∧ f ≤ g) →
      σ name sub = τ name sub) {name : String} {sub : List Int} {g : Int}
    (hsub : sub.head? = some g) (lo : f ≤ g) (hi : g < f + n) :
    runLoop n f (boundTo cs axes) σ name sub = runClauses cs τ name sub := by
  induction n generalizing f σ with
  | zero => omega
  | succ n ih =>
    rw [runLoop]
    by_cases hg : g = f
    · subst hg
      rw [h.runLoop_of_ne _ fun _ g' hg' heq => ?_, h.runSlices_eq (τ := τ) (fun name sub hs => ?_)
        (fun _ hx => hx) name sub fun _ => hsub, h.map_snd_boundTo]
      · exact hcells name sub fun hname => ⟨g, hs hname, Int.le_refl g⟩
      · rw [hsub] at heq
        cases heq
        omega
    · refine ih (fun name sub hs => ?_) (by omega) (by omega)
      rw [h.runSlices_of_ne σ (fun _ hx => hx) fun hname heq => ?_, hcells name sub fun hname => ?_]
      · obtain ⟨g', hg', hle⟩ := hs hname
        exact ⟨g', hg', by omega⟩
      · obtain ⟨g', hg', hle⟩ := hs hname
        rw [heq] at hg'
        cases hg'
        omega

/-- Running the shared loop does what running the clauses one after the other does. -/
theorem runLoop_agree (σ : Cells α) : Cells.Agree p.find.shapes
    (runLoop extent.toNat 0 (boundTo cs axes) σ) (runClauses cs σ) := by
  intro name stored sub hS hsub
  by_cases hname : name ∈ cs.map Clause.name
  · obtain ⟨c, hc, rfl⟩ := List.mem_map.mp hname
    obtain ⟨i, hi⟩ := List.mem_iff_getElem?.mp hc
    obtain ⟨k, -, hshares⟩ := forall₂_getElem? h.shares hi
    obtain ⟨s, rest, hs, hshape⟩ := hshares.stored
    rw [Symbols.shapes_eq hs, hshape] at hS
    cases hS
    cases hsub with
    | cons lo hi _ => exact h.runLoop_eq (fun _ _ _ => rfl) rfl lo (by omega)
  · rw [h.runLoop_of_ne σ fun hmem => absurd hmem hname,
      runClauses_of_notMem fun c hc heq => hname (List.mem_map.mpr ⟨c, hc, heq⟩)]

/-- The interpreter runs the slices of all assignments at one value of the shared loop after the
other. -/
theorem runFused_spec (haligned : ∀ c ∈ cs, c.tree.Aligned c.target)
    (hS : p.find.shapes.Countable) {n : Nat} {f : Int} (lo : 0 ≤ f) (hi : f + n ≤ extent)
    {σ : Cells α} {mem : Memory α} (hmem : mem.Fits p.find.shapes)
    (hcells : Cells.Agree p.find.shapes (cellsOf mem) σ) :
    ∃ mem', (shared p extent axes).runFused n f mem = .ok mem' ∧ mem'.Fits p.find.shapes ∧
      mem'.keys = mem.keys ∧
      Cells.Agree p.find.shapes (cellsOf mem') (runLoop n f (boundTo cs axes) σ) := by
  induction n generalizing f σ mem with
  | zero => exact ⟨mem, rfl, hmem, rfl, hcells⟩
  | succ n ih =>
    obtain ⟨mem₁, hrun₁, hmem₁, hkeys₁, hcells₁⟩ := runAssignments_spec hS
      (h.executes haligned lo (by omega)) hmem hcells 0
    obtain ⟨mem₂, hrun₂, hmem₂, hkeys₂, hcells₂⟩ :=
      ih (f := f + 1) (by omega) (by omega) hmem₁ hcells₁
    refine ⟨mem₂, ?_, hmem₂, hkeys₂.trans hkeys₁, hcells₂⟩
    rw [Program.runFused, map_fst_boundTo h.laid, hrun₁]
    exact hrun₂

/-- A program whose assignments share a loop does what its clauses do. -/
theorem run_spec (haligned : ∀ c ∈ cs, c.tree.Aligned c.target) (hS : p.find.shapes.Countable)
    {mem : Memory α} (hmem : mem.Fits p.find.shapes) :
    ∃ mem', (shared p extent axes).run mem = .ok mem' ∧ mem'.Fits p.find.shapes ∧
      mem'.keys = mem.keys ∧
      Cells.Agree p.find.shapes (cellsOf mem') (runClauses cs (cellsOf mem)) := by
  have hpos := h.pos
  obtain ⟨mem', hrun, hmem', hkeys', hcells'⟩ := h.runFused_spec haligned hS (n := extent.toNat)
    (f := 0) (Int.le_refl 0) (by omega) hmem (Cells.Agree.refl _)
  exact ⟨mem', hrun, hmem', hkeys', hcells'.trans (h.runLoop_agree _)⟩

end Bound

end LoopNest.Pass
