import Mathlib.Data.List.Perm.Basic
import LoopNest.Pass.Unstack
import LoopNest.Proofs.Pass.Hoisting

/-!
# Slices of a destination

The two changes that the elimination of stacks is made of. A stack whose members do not read its
destination is split into one clause per member (`run_split`, `sound_split`). A clause that copies
a tensor into a slice goes away when the definition of the tensor writes the slice instead
(`run_rename`, `sound_rename`).
-/

namespace LoopNest

variable {K : ShapeClass} {N : NodeClass} {find : Symbols}

theorem Ordered.of_reads {written : List Node} {cs : List Clause}
    (h : ∀ c ∈ cs, ∀ name ∈ c.tree.names, ∀ s, find name = some s →
      s.role.isInput ∨ Filled written name s.shape) : Ordered find written cs := by
  induction cs generalizing written with
  | nil => trivial
  | cons c cs ih =>
    refine ⟨h c (.head _), ih fun d hd name hname s hs => ?_⟩
    exact (h d (List.mem_cons_of_mem _ hd) name hname s hs).imp_right fun hfill sub hsub =>
      (hfill sub hsub).mono (List.subset_cons_self _ _)

/-! ## Tensors that are no longer used -/

/-- The tensors other than the one that is no longer used. -/
def Symbols.without (find : Symbols) (t : String) : Symbols :=
  fun name => if name = t then none else find name

theorem Symbols.without_eq {t name : String} (h : name ≠ t) : find.without t name = find name := if_neg h

theorem Symbols.of_without {t name : String} {s : Symbol} (h : find.without t name = some s) :
    name ≠ t ∧ find name = some s := by
  unfold Symbols.without at h
  split at h
  · cases h
  · exact ⟨‹_›, h⟩

theorem Clause.Fits.without {c : Clause} {t : String} (h : c.Fits N find) (hread : t ∉ c.tree.names)
    (hname : c.name ≠ t) : c.Fits N (find.without t) := by
  refine ⟨h.kind, ?_, h.shape, h.typed.mono fun name hmem => ?_⟩
  · obtain ⟨s, hs, hrest⟩ := h.declared
    exact ⟨s, (Symbols.without_eq hname).trans hs, hrest⟩
  · rw [Symbols.shapes, Symbols.shapes, Symbols.without_eq]
    rintro rfl
    exact hread hmem

theorem Apart.without {n m : Node} (h : Apart find n m) (t : String) : Apart (find.without t) n m :=
  fun hname s hs => h hname s (Symbols.of_without hs).2

theorem Ordered.without {cs : List Clause} {written written' : List Node} {t : String}
    (h : Ordered find written cs)
    (hsub : ∀ name sub, name ≠ t → Covers written name sub → Covers written' name sub) :
    Ordered (find.without t) written' cs := by
  induction cs generalizing written written' with
  | nil => trivial
  | cons c cs ih =>
    refine ⟨fun name hname s hs => ?_, ih h.2 fun name sub hne => ?_⟩
    · obtain ⟨hne, hs⟩ := Symbols.of_without hs
      exact (h.1 name hname s hs).imp_right fun hfill sub hin => hsub name sub hne (hfill sub hin)
    · rw [covers_cons, covers_cons]
      exact Or.imp_right (hsub name sub hne)

namespace Pass

variable {dst : Node}

/-! ## Slices -/

/-- The destination of member `k`. -/
def slice (dst : Node) (k : Nat) (shape : Shape) : Node :=
  { kind := .identifier, name := dst.name, shape, fixed := dst.fixed ++ [(k : Int)],
    perm := dst.perm }

/-- One clause per member, from position `k` on. -/
def slices (dst : Node) : Nat → List (Tree × NodeId) → List Clause
  | _, [] => []
  | k, (t, view) :: ms =>
    { dst := view, target := slice dst k t.shape, tree := t } :: slices dst (k + 1) ms

theorem slices_append (dst : Node) (k : Nat) (ms ms' : List (Tree × NodeId)) :
    slices dst k (ms ++ ms') = slices dst k ms ++ slices dst (k + ms.length) ms' := by
  induction ms generalizing k with
  | nil => rfl
  | cons m ms ih => simp [slices, ih, Nat.add_assoc, Nat.add_comm 1]

theorem mem_slices {k : Nat} {ms : List (Tree × NodeId)} {c : Clause}
    (h : c ∈ slices dst k ms) : ∃ i m, ms[i]? = some m ∧
      c = { dst := m.2, target := slice dst (k + i) m.1.shape, tree := m.1 } := by
  induction ms generalizing k with
  | nil => cases h
  | cons m ms ih =>
    rcases List.mem_cons.mp h with rfl | h
    · exact ⟨0, m, rfl, rfl⟩
    · obtain ⟨i, m', hm, rfl⟩ := ih h
      exact ⟨i + 1, m', hm, by rw [Nat.add_assoc, Nat.add_comm 1]⟩

theorem slices_mem {k i : Nat} {ms : List (Tree × NodeId)} {m : Tree × NodeId}
    (h : ms[i]? = some m) :
    { dst := m.2, target := slice dst (k + i) m.1.shape, tree := m.1 } ∈ slices dst k ms := by
  induction ms generalizing k i with
  | nil => cases h
  | cons m' ms ih =>
    cases i with
    | zero =>
      cases h
      exact .head _
    | succ i =>
      have := ih (k := k + 1) (i := i) h
      rw [Nat.add_assoc, Nat.add_comm 1] at this
      exact List.mem_cons_of_mem _ this

theorem ids_slices (k : Nat) (ms : List (Tree × NodeId)) :
    (slices dst k ms).flatMap Clause.ids = ms.flatMap fun m => m.2 :: m.1.ids := by
  induction ms generalizing k with
  | nil => rfl
  | cons m ms ih => simp [slices, Clause.ids, ih]

/-- The cells of a slice are those of the destination at one leading index. -/
theorem own?_slice {n : Int} {shape : Shape} (hshape : dst.shape = n :: shape) {k : Nat}
    (hk : (k : Int) < n) {sub idx : List Int} :
    (slice dst k shape).own? sub = some idx ↔ dst.own? sub = some ((k : Int) :: idx) := by
  rw [Node.own?_eq_some_iff, Node.own?_eq_some_iff, hshape]
  have hin : InRange (n :: shape) ((k : Int) :: idx) ↔ InRange shape idx :=
    ⟨fun h => by cases h; assumption, fun h => .cons (Int.natCast_nonneg k) hk h⟩
  rw [hin]
  simp [Node.subscript, slice]

theorem views_slice {n : Int} {shape stored : Shape} (hshape : dst.shape = n :: shape) {k : Nat}
    (hk : (k : Int) < n) (h : dst.Views stored) : (slice dst k shape).Views stored := by
  obtain ⟨lead, hlead, hin⟩ := h
  refine ⟨lead ++ [n], by simpa [slice, hshape] using hlead, ?_⟩
  exact hin.append (.cons (Int.natCast_nonneg k) hk .nil)

theorem fixed_slice_prefix {i k : Nat} {s s' : Shape}
    (h : (slice dst i s).fixed <+: (slice dst k s').fixed) : i = k := by
  have heq : (i : Int) = k := by simpa [slice, List.prefix_append_right_inj] using h
  exact Int.natCast_inj.mp heq

/-- Slices at different positions have no cell in common. -/
theorem slice_disjoint {n : Int} {shape : Shape} (hshape : dst.shape = n :: shape) {i k : Nat}
    (hi : (i : Int) < n) (hk : (k : Int) < n) (hne : i ≠ k) {sub idx : List Int}
    (h : (slice dst k shape).own? sub = some idx) : (slice dst i shape).own? sub = none := by
  rw [Option.eq_none_iff_forall_ne_some]
  intro idx' h'
  rw [own?_slice hshape hk] at h
  rw [own?_slice hshape hi, h] at h'
  simp only [Option.some.injEq, List.cons.injEq, Int.natCast_inj] at h'
  exact hne h'.1.symm

/-! ## Splitting a stack -/

/-- The members of a stack have the shape of its destination without the leading axis. -/
theorem stack_members {c : Clause} {id : NodeId} {label : Node} {ts : List Tree}
    (hfits : c.Fits N find) (hc : c.tree = .node id label ts) (hkind : label.kind = .stack) :
    ∃ shape, c.target.shape = (ts.length : Int) :: shape ∧ (∀ t ∈ ts, t.shape = shape) ∧
      ts ≠ [] := by
  have hshape := hfits.shape
  have htyped := hfits.typed
  rw [hc] at hshape htyped
  cases htyped with
  | node _ hfit _ =>
    generalize hss : ts.map Tree.shape = ss at hfit
    cases hfit with
    | @stack s ops _ _ hlen hall =>
      obtain ⟨t, ts, rfl, rfl, rfl⟩ := List.map_eq_cons_iff.mp hss
      refine ⟨t.shape, ?_, ?_, by simp⟩
      · rw [← hshape, Tree.shape_node, hlen]
        simp
      · intro u hu
        rcases List.mem_cons.mp hu with rfl | hu
        · rfl
        · exact hall _ (List.mem_map_of_mem hu)
    | _ => simp_all [NodeKind.isElementwise]

section

variable {α : Type} [Scalar α] {shape : Shape} {ms : List (Tree × NodeId)}

/-- A cell of a slice gets the value of its member. -/
theorem run_slices_own {n : Int} (hshape : dst.shape = n :: shape)
    (hs : ∀ m ∈ ms, m.1.shape = shape) (hreads : ∀ m ∈ ms, dst.name ∉ m.1.names) {k : Nat}
    (hk : ((k + ms.length : Nat) : Int) ≤ n) {j : Nat} {m : Tree × NodeId} (hj : ms[j]? = some m)
    {sub idx : List Int} (hown : dst.own? sub = some (((k + j : Nat) : Int) :: idx)) (σ : Cells α) :
    runClauses (slices dst k ms) σ dst.name sub = m.1.eval σ idx := by
  induction ms generalizing k j σ with
  | nil => cases hj
  | cons m₀ ms ih =>
    have hlen : (m₀ :: ms).length = ms.length + 1 := rfl
    have hm₀ : m₀.1.shape = shape := hs m₀ (.head _)
    rw [slices, runClauses_cons]
    cases j with
    | zero =>
      cases hj
      rw [runClauses_not_own]
      · refine Clause.step_own (c := { dst := m.2, target := slice dst k m.1.shape, tree := m.1 }) ?_ σ
        rw [hm₀]
        exact (own?_slice hshape (by omega)).mpr hown
      · intro c hc _
        obtain ⟨i, m', hi, rfl⟩ := mem_slices hc
        have hlt := (List.getElem?_eq_some_iff.mp hi).1
        show (slice dst _ m'.1.shape).own? sub = none
        rw [hs m' (List.mem_cons_of_mem _ (List.mem_of_getElem? hi))]
        exact slice_disjoint hshape (by omega) (by omega) (by omega)
          ((own?_slice hshape (by omega)).mpr hown)
    | succ j =>
      rw [ih (fun m hm => hs m (List.mem_cons_of_mem _ hm))
        (fun m hm => hreads m (List.mem_cons_of_mem _ hm)) (k := k + 1) (j := j) (by omega) hj
        (by rw [hown]; congr 3; omega)]
      have hnot : dst.name ∉ m.1.names := hreads m (List.mem_of_getElem? hj)
      rw [Tree.eval_congr_names fun name hname => ?_]
      refine Clause.step_of_ne ?_ σ
      rintro rfl
      exact hnot hname

/-- Splitting a stack does not change what it does. -/
theorem run_split {c : Clause} {id : NodeId} {label : Node}
    (hc : c.tree = .node id label (ms.map Prod.fst)) (hkind : label.kind = .stack)
    (hfits : c.Fits N find) (hreads : ∀ m ∈ ms, c.name ∉ m.1.names) (σ : Cells α) :
    runClauses (slices c.target 0 ms) σ = runClauses [c] σ := by
  obtain ⟨shape, hshape, hs, -⟩ := stack_members hfits hc hkind
  simp only [List.length_map, List.mem_map] at hshape hs
  funext name sub
  rw [runClauses_cons, runClauses_nil]
  have hnone : ∀ {name sub}, (name = c.name → c.target.own? sub = none) →
      runClauses (slices c.target 0 ms) σ name sub = σ name sub := by
    intro name sub hown
    refine runClauses_not_own (fun d hd hname => ?_) σ
    obtain ⟨i, m, hi, rfl⟩ := mem_slices hd
    have hlt := (List.getElem?_eq_some_iff.mp hi).1
    rw [Option.eq_none_iff_forall_ne_some]
    intro idx hidx
    rw [hs m.1 ⟨m, List.mem_of_getElem? hi, rfl⟩, own?_slice hshape (by omega), hown hname.symm] at hidx
    cases hidx
  by_cases hname : name = c.name
  · subst hname
    cases hown : c.target.own? sub with
    | none => rw [hnone fun _ => hown, Clause.step_not_own hown]
    | some idx =>
      rw [Clause.step_own hown, hc]
      have hin := (Node.own?_eq_some_iff.mp hown).2
      rw [hshape] at hin
      cases hin with
      | @cons i _ idx _ hlo hhi hin =>
        obtain ⟨j, rfl⟩ := Int.eq_ofNat_of_zero_le hlo
        have hj : j < ms.length := by omega
        rw [Tree.eval_stack (t := ms[j].1) hkind (at?_eq_some_iff.mpr ⟨hlo, by simp [hj]⟩)]
        exact run_slices_own hshape (fun m hm => hs m.1 ⟨m, hm, rfl⟩) hreads (by simp)
          (List.getElem?_eq_getElem hj) (by simpa using hown) σ
  · rw [Clause.step_of_ne hname, hnone fun h => absurd h hname]

end

/-- The slices have every cell of the destination. -/
theorem covers_slices {shape : Shape} {ms : List (Tree × NodeId)}
    (hshape : dst.shape = (ms.length : Int) :: shape) (hs : ∀ m ∈ ms, m.1.shape = shape)
    {sub : List Int} (hown : (dst.own? sub).isSome) :
    Covers ((slices dst 0 ms).map Clause.target) dst.name sub := by
  obtain ⟨idx, hidx⟩ := Option.isSome_iff_exists.mp hown
  have hin := (Node.own?_eq_some_iff.mp hidx).2
  rw [hshape] at hin
  cases hin with
  | @cons i _ _ rest hlo hhi _ =>
    obtain ⟨j, rfl⟩ := Int.eq_ofNat_of_zero_le hlo
    have hj : j < ms.length := by omega
    refine ⟨slice dst j shape, List.mem_map.mpr ⟨_,
      slices_mem (List.getElem?_eq_getElem hj), ?_⟩, rfl, ?_⟩
    · rw [hs _ (List.getElem_mem hj), Nat.zero_add]
    · exact Option.isSome_iff_exists.mpr ⟨rest, (own?_slice hshape hhi).mpr hidx⟩

theorem slices_apart (find : Symbols) (k : Nat) (ms : List (Tree × NodeId)) :
    ((slices dst k ms).map Clause.target).Pairwise (Apart find) := by
  induction ms generalizing k with
  | nil => exact .nil
  | cons m ms ih =>
    refine List.pairwise_cons.mpr ⟨fun n hn _ _ _ _ => ?_, ih (k + 1)⟩
    obtain ⟨c, hc, rfl⟩ := List.mem_map.mp hn
    obtain ⟨i, m', -, rfl⟩ := mem_slices hc
    refine ⟨fun hp => ?_, fun hp => ?_⟩
    · have := fixed_slice_prefix hp
      omega
    · have := fixed_slice_prefix hp
      omega

/-- The slices are well-shaped. -/
theorem fits_slices {c : Clause} {id : NodeId} {label : Node} {ms : List (Tree × NodeId)}
    (hfits : c.Fits N find) (hc : c.tree = .node id label (ms.map Prod.fst))
    (hkind : label.kind = .stack) : ∀ d ∈ slices c.target 0 ms, d.Fits N find := by
  obtain ⟨shape, hshape, hs, -⟩ := stack_members hfits hc hkind
  simp only [List.length_map, List.mem_map] at hshape hs
  obtain ⟨s, hfind, hviews, hrole⟩ := hfits.declared
  have htyped := hfits.typed
  rw [hc] at htyped
  intro d hd
  obtain ⟨i, m, hi, rfl⟩ := mem_slices hd
  have hmem := List.mem_of_getElem? hi
  have hlt := (List.getElem?_eq_some_iff.mp hi).1
  refine ⟨rfl, ⟨s, hfind, ?_, hrole⟩, rfl, ?_⟩
  · rw [hs m.1 ⟨m, hmem, rfl⟩]
    exact views_slice hshape (by omega) hviews
  · cases htyped with
    | node _ _ hts => exact hts m.1 (List.mem_map_of_mem hmem)

theorem sound_split {l r : List Clause} {c : Clause} {id : NodeId} {label : Node}
    {ms : List (Tree × NodeId)} (h : Sound K find (l ++ ([c] ++ r)))
    (hc : c.tree = .node id label (ms.map Prod.fst)) (hkind : label.kind = .stack) :
    Sound K find (l ++ (slices c.target 0 ms ++ r)) := by
  have hfits := h.fits c (by simp)
  obtain ⟨shape, hshape, hs, hne⟩ := stack_members hfits hc hkind
  simp only [List.length_map, List.mem_map] at hshape hs
  have hord := (ordered_append.mp (ordered_append.mp h.ordered).2).1.1
  refine Replacement.result ⟨h, fun _ _ hs => hs, fun _ _ => .inl, fits_slices hfits hc hkind, ?_, ?_,
    slices_apart find 0 ms, ?_⟩
  · refine Ordered.of_reads fun d hd name hname s hs => ?_
    obtain ⟨i, m, hi, rfl⟩ := mem_slices hd
    have hmem : name ∈ c.tree.names := by
      rw [hc, Tree.names_node]
      refine List.mem_append_right _ (List.mem_flatMap.mpr ⟨m.1, ?_, hname⟩)
      exact List.mem_map_of_mem (List.mem_of_getElem? hi)
    simpa using hord name hmem s hs
  · rintro name sub ⟨n, hn, rfl, hown⟩
    rw [List.map_singleton, List.mem_singleton] at hn
    subst hn
    exact covers_slices hshape (fun m hm => hs m.1 ⟨m, hm, rfl⟩) hown
  · intro d hd
    obtain ⟨i, m, -, rfl⟩ := mem_slices hd
    exact .inr ⟨c, by simp, rfl, List.prefix_append _ _⟩

/-- The members read what the stack read. -/
theorem single_split {l r : List Clause} {c : Clause} {id : NodeId} {label : Node}
    {ms : List (Tree × NodeId)} (hc : c.tree = .node id label (ms.map Prod.fst))
    (hkind : label.kind = .stack) :
    KeepsSingle find (l ++ ([c] ++ r)) find (l ++ (slices c.target 0 ms ++ r)) := by
  have hnames : ∀ k, (slices c.target k ms).flatMap (fun c => c.tree.names) =
      (ms.map Prod.fst).flatMap Tree.names := by
    clear hc
    induction ms with
    | nil => exact fun _ => rfl
    | cons m ms ih => simp [slices, ih]
  refine .replace (fun _ _ hs => hs) (fun name s _ => ?_) fun d hd => ?_
  · rw [hnames, List.flatMap_singleton, hc, Tree.names_node, hkind]
    rfl
  · obtain ⟨i, m, -, rfl⟩ := mem_slices hd
    exact ⟨c, by simp, rfl, rfl⟩

/-- The destinations of the slices are new, the members keep their nodes. -/
theorem unshared_split {l r : List Clause} {c : Clause} {id : NodeId} {label : Node}
    {ms : List (Tree × NodeId)} (hc : c.tree = .node id label (ms.map Prod.fst))
    (h : (ms.map Prod.snd ++ (l ++ ([c] ++ r)).flatMap Clause.ids).Nodup) :
    Unshared (l ++ (slices dst 0 ms ++ r)) := by
  have hmembers : ∀ i, (ms.flatMap fun m => m.2 :: m.1.ids).count i =
      (ms.map Prod.snd).count i + ((ms.map Prod.fst).flatMap Tree.ids).count i := by
    intro i
    clear hc h
    induction ms with
    | nil => rfl
    | cons m ms ih =>
      simp only [List.flatMap_cons, List.map_cons, List.count_append, List.count_cons, ih]
      omega
  have hperm : (ms.map Prod.snd ++ (l ++ ([c] ++ r)).flatMap Clause.ids).Perm
      ([c.dst, id] ++ (l ++ (slices dst 0 ms ++ r)).flatMap Clause.ids) := by
    rw [List.perm_iff_count]
    intro i
    simp only [List.flatMap_append, List.flatMap_cons, List.flatMap_nil, Clause.ids, hc,
      Tree.ids_node, List.count_append, List.count_cons, List.count_nil, hmembers, ids_slices]
    omega
  exact (List.nodup_append.mp (hperm.nodup_iff.mp h)).2.1

/-! ## Writing a slice directly -/

/-- The tensor `t` is defined whole by `d` and copied by `x` into its destination, which nothing
between the two reads or writes. Only `x` reads `t`. -/
structure Renames (t : String) (l mid r : List Clause) (d x : Clause) : Prop where
  name : d.name = t
  fixed : d.target.fixed = []
  perm : d.target.perm = []
  copies : ∀ {α : Type} [Scalar α] (σ : Cells α) idx, x.tree.eval σ idx = σ t idx
  shape : d.target.shape = x.target.shape
  ne : x.name ≠ t
  unread : ∀ c ∈ l ++ (d :: (mid ++ r)), t ∉ c.tree.names
  unwritten : ∀ c ∈ l ++ (mid ++ r), c.name ≠ t
  between : ∀ c ∈ mid, x.name ∉ c.tree.names
  disjoint : ∀ c ∈ mid, c.target.Disjoint x.target

/-- The definition of a tensor with the destination of the clause that copies it. -/
def retarget (d x : Clause) : Clause := { d with dst := x.dst, target := x.target }

/-- Writing the slice directly does not change what a program does. -/
theorem run_rename {α : Type} [Scalar α] {t : String} {l mid r : List Clause} {d x : Clause}
    (h : Renames t l mid r d x) (σ : Cells α) : ∀ name, name ∉ [t] →
      runClauses (l ++ (retarget d x :: (mid ++ r))) σ name =
        runClauses (l ++ (d :: (mid ++ ([x] ++ r)))) σ name := by
  simp only [runClauses_append, runClauses_cons, runClauses_nil]
  refine runClauses_agree (fun c hc name hname hmem => ?_) fun name hname => ?_
  · rw [List.mem_singleton.mp hmem] at hname
    exact h.unread c (by simp [hc]) hname
  generalize runClauses l σ = σ
  funext sub
  have hmid : ∀ name sub, name ≠ t ∧ (name = x.name → x.target.own? sub = none) →
      runClauses mid ((retarget d x).step σ) name sub = runClauses mid (d.step σ) name sub := by
    refine runClauses_agree_cells (fun c hc n hn sub => ⟨?_, ?_⟩) ?_
    · rintro name sub ⟨hne, hown⟩
      have hd : d.step σ name = σ name := Clause.step_of_ne (by rwa [h.name]) σ
      rw [hd]
      by_cases hx : name = x.name
      · exact Clause.step_not_own (c := retarget d x) (hown hx) σ name
      · rw [Clause.step_of_ne (c := retarget d x) hx]
    · rintro rfl
      exact h.unread c (by simp [hc]) hn
    · rintro rfl
      exact absurd hn (h.between c hc)
  by_cases hx : name = x.name
  · subst hx
    cases hown : x.target.own? sub with
    | none => rw [Clause.step_not_own hown, hmid _ _ ⟨h.ne, fun _ => hown⟩]
    | some idx =>
      have hin := (Node.own?_eq_some_iff.mp hown).2
      rw [Clause.step_own hown, h.copies,
        runClauses_of_notMem fun c hc => h.unwritten c (by simp [hc])]
      rw [runClauses_not_own fun c hc hname => ?_]
      · have hd : d.step σ t idx = d.tree.eval σ idx := by
          rw [← h.name]
          exact Clause.step_own (Node.own?_whole h.fixed h.perm (h.shape ▸ hin)) σ
        rw [hd]
        exact Clause.step_own (c := retarget d x) hown σ
      · exact (h.disjoint c hc hname sub).resolve_right (by simp [hown])
  · rw [Clause.step_of_ne hx, hmid _ _ ⟨by simpa using hname, fun heq => absurd heq hx⟩]

/-- Clauses of which one is renamed remain well-shaped. -/
theorem fits_rename {t : String} {l mid r : List Clause} {d x : Clause}
    (hfits : ∀ c ∈ l ++ (d :: (mid ++ ([x] ++ r))), c.Fits N find) (h : Renames t l mid r d x) :
    ∀ c ∈ l ++ (retarget d x :: (mid ++ r)), c.Fits N (find.without t) := by
  have hd := hfits d (by simp)
  have hx := hfits x (by simp)
  intro c hc
  simp only [List.mem_append, List.mem_cons] at hc
  have hother : c ∈ l ++ (mid ++ r) → c.Fits N (find.without t) := by
    intro hc
    simp only [List.mem_append] at hc
    refine Clause.Fits.without (hfits c ?_) (h.unread c ?_) (h.unwritten c ?_)
    · simp only [List.mem_append, List.mem_cons]
      tauto
    · simp only [List.mem_append, List.mem_cons]
      tauto
    · simpa using hc
  rcases hc with hc | rfl | hc | hc
  · exact hother (by simp [hc])
  · refine Clause.Fits.without ⟨hx.kind, hx.declared, ?_, hd.typed⟩ (h.unread d (by simp)) h.ne
    exact hd.shape.trans h.shape
  · exact hother (by simp [hc])
  · exact hother (by simp [hc])

theorem sound_rename {t : String} {l mid r : List Clause} {d x : Clause}
    (hs : Sound K find (l ++ (d :: (mid ++ ([x] ++ r))))) (h : Renames t l mid r d x) :
    Sound K (find.without t) (l ++ (retarget d x :: (mid ++ r))) := by
  have hcovers : ∀ name sub, name ≠ t →
      Covers ((l ++ (d :: (mid ++ ([x] ++ r)))).map Clause.target) name sub →
      Covers ((l ++ (retarget d x :: (mid ++ r))).map Clause.target) name sub := by
    rintro name sub hne ⟨n, hn, rfl, hown⟩
    obtain ⟨c, hc, rfl⟩ := List.mem_map.mp hn
    refine ⟨c.target, ?_, rfl, hown⟩
    simp only [List.mem_append, List.mem_cons, List.not_mem_nil, or_false] at hc
    rw [List.mem_map]
    rcases hc with hc | rfl | hc | rfl | hc
    · exact ⟨c, by simp [hc], rfl⟩
    · exact absurd h.name hne
    · exact ⟨c, by simp [hc], rfl⟩
    · exact ⟨retarget d c, by simp, rfl⟩
    · exact ⟨c, by simp [hc], rfl⟩
  refine ⟨fun name s hfind => hs.symbols name s (Symbols.of_without hfind).2,
    fun name s hfind => hs.plain name s (Symbols.of_without hfind).2, fits_rename hs.fits h,
    ?_, ?_, ?_, ?_⟩
  · obtain ⟨hl, hrest⟩ := ordered_append.mp hs.ordered
    obtain ⟨hmid, hr⟩ := ordered_append.mp hrest.2
    refine ordered_append.mpr ⟨hl.without fun _ _ _ hsub => hsub, ⟨?_, ?_⟩⟩
    · exact fun name hname s hfind => hrest.1 name hname s (Symbols.of_without hfind).2
    · refine ordered_append.mpr ⟨hmid.without fun name sub hne => ?_, ?_⟩
      · rw [covers_cons, covers_cons]
        exact Or.rec (fun hd => absurd (hd.1 ▸ h.name) hne) .inr
      · refine hr.2.without fun name sub hne => ?_
        simp only [covers_cons, covers_append]
        rintro (hx | hmid | hd | hl)
        · exact .inr (.inl hx)
        · exact .inl hmid
        · exact absurd (hd.1 ▸ h.name) hne
        · exact .inr (.inr hl)
  · intro c hc s hfind sub hsub
    obtain ⟨hne, hfind⟩ := Symbols.of_without hfind
    refine hcovers _ sub hne ?_
    have hold : ∃ e ∈ l ++ (d :: (mid ++ ([x] ++ r))), e.name = c.name := by
      simp only [List.mem_append, List.mem_cons] at hc
      rcases hc with hc | rfl | hc | hc
      · exact ⟨c, by simp [hc], rfl⟩
      · exact ⟨x, by simp, rfl⟩
      · exact ⟨c, by simp [hc], rfl⟩
      · exact ⟨c, by simp [hc], rfl⟩
    obtain ⟨e, he, hname⟩ := hold
    exact hname ▸ hs.filled e he s (hname ▸ hfind) sub hsub
  · intro name s hfind hsynth
    obtain ⟨hne, hfind⟩ := Symbols.of_without hfind
    obtain ⟨c, hc, rfl⟩ := hs.defined name s hfind hsynth
    simp only [List.mem_append, List.mem_cons] at hc
    rcases hc with hc | rfl | hc | (rfl | hc) | hc
    · exact ⟨c, by simp [hc], rfl⟩
    · exact absurd h.name hne
    · exact ⟨c, by simp [hc], rfl⟩
    · exact ⟨retarget d c, by simp, rfl⟩
    · cases hc
    · exact ⟨c, by simp [hc], rfl⟩
  · have hperm : ((l ++ (retarget d x :: (mid ++ r))).map Clause.target).Perm
        ((l ++ (mid ++ ([x] ++ r))).map Clause.target) := by
      simp only [List.map_append, List.map_cons, List.map_nil, retarget]
      exact .append_left _ List.perm_middle.symm
    have hsub : ((l ++ (mid ++ ([x] ++ r))).map Clause.target).Sublist
        ((l ++ (d :: (mid ++ ([x] ++ r)))).map Clause.target) :=
      (List.Sublist.append_left (List.sublist_cons_self _ _) l).map _
    refine (hperm.pairwise_iff fun hab => hab.symm).mpr ?_
    exact (hs.apart.sublist hsub).imp fun hab => hab.without t

/-- Only the read of the copied tensor goes away. -/
theorem single_rename {t : String} {l mid r : List Clause} {d x : Clause} (hx : x.tree.names = [t]) :
    KeepsSingle find (l ++ (d :: (mid ++ ([x] ++ r)))) (find.without t)
      (l ++ (retarget d x :: (mid ++ r))) := by
  refine .of_count (fun name s hs => (Symbols.of_without hs).2) (fun name s hs => ?_) fun e he => ?_
  · have hname : [t].count name = 0 :=
      List.count_eq_zero.mpr (by simpa using (Symbols.of_without hs).1)
    simp only [List.flatMap_append, List.flatMap_cons, List.flatMap_nil, hx, retarget,
      List.count_append, List.count_nil, hname]
    omega
  · simp only [List.mem_append, List.mem_cons] at he
    rcases he with he | rfl | he | he
    · exact ⟨e, by simp [he], rfl, rfl⟩
    · exact ⟨x, by simp, rfl, rfl⟩
    · exact ⟨e, by simp [he], rfl, rfl⟩
    · exact ⟨e, by simp [he], rfl, rfl⟩

/-- The nodes after the change: those of the destination of `d` and of the copy are gone. -/
theorem ids_rename {l mid r : List Clause} {d x : Clause}
    (h : Unshared (l ++ (d :: (mid ++ ([x] ++ r))))) :
    Unshared (l ++ (retarget d x :: (mid ++ r))) := by
  have hperm : ((l ++ (d :: (mid ++ ([x] ++ r)))).flatMap Clause.ids).Perm
      ((d.dst :: x.tree.ids) ++ (l ++ (retarget d x :: (mid ++ r))).flatMap Clause.ids) := by
    rw [List.perm_iff_count]
    intro i
    simp only [List.flatMap_append, List.flatMap_cons, List.flatMap_nil, Clause.ids, retarget,
      List.count_append, List.count_cons, List.count_nil]
    omega
  exact (List.nodup_append.mp (hperm.nodup_iff.mp h)).2.1

end Pass

end LoopNest
