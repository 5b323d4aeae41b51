import LoopNest.Proofs.Clause

/-!
# Memories

What loads and stores do to the cells of a memory. A memory `Fits` the stored shapes when it holds
every tensor with all its elements. As long as positions fit in a word, different subscripts in
range are different elements, so that a store changes one cell (`storeAt_spec`).
-/

namespace LoopNest

namespace OrderedMap

variable {κ : Type _} {ν : Type _} [DecidableEq κ]

/-- A change happens when there is a value and it can be changed. Only this value is another one
afterwards. -/
theorem change?_cases (m : OrderedMap κ ν) (k : κ) (f : ν → Option ν) :
    (m.change? k f = none ∧ (m.get? k).bind f = none) ∨
      ∃ v v' m', m.get? k = some v ∧ f v = some v' ∧ m.change? k f = some m' ∧ m'.keys = m.keys ∧
        ∀ k', m'.get? k' = if k' = k then some v' else m.get? k' := by
  obtain ⟨entries⟩ := m
  simp only [change?, get?, keys]
  induction entries with
  | nil => exact .inl ⟨rfl, rfl⟩
  | cons e rest ih =>
    obtain ⟨key, v⟩ := e
    by_cases hk : key = k
    · subst hk
      cases hf : f v with
      | none => exact .inl (by simp [changeIn?, hf])
      | some v' =>
        refine .inr ⟨v, v', ⟨(key, v') :: rest⟩, by simp, hf, by simp [changeIn?, hf], rfl, ?_⟩
        intro k'
        by_cases hk' : key = k'
        · simp [hk']
        · simp [hk', Ne.symm hk']
    · rcases ih with ⟨h₁, h₂⟩ | ⟨w, w', m', hget, hf, hch, hkeys, hget'⟩
      · refine .inl ⟨?_, ?_⟩
        · simpa [changeIn?, hk] using h₁
        · simpa [List.find?_cons, hk] using h₂
      · obtain ⟨entries', hent, rfl⟩ := Option.map_eq_some_iff.mp hch
        refine .inr ⟨w, w', ⟨(key, v) :: entries'⟩, ?_, hf, by simp [changeIn?, hk, hent], ?_, ?_⟩
        · simpa [List.find?_cons, hk] using hget
        · simpa using hkeys
        · intro k'
          have hrest := hget' k'
          by_cases hk' : key = k'
          · subst hk'
            simp [hk]
          · simpa [List.find?_cons, hk'] using hrest

end OrderedMap

variable {α : Type}

/-! ## Tensors -/

namespace Tensor

theorem set?_eq_some_iff {t t' : Tensor α} {sub : List Int} {v : α} :
    t.set? sub v = some t' ↔ ∃ o, t.offset sub = some o ∧ (0 ≤ o ∧ o < t.data.size) ∧
      t' = { t with data := t.data.setIfInBounds o.toNat v } := by
  simp only [set?, Option.bind_eq_bind, Option.bind_eq_some_iff, Option.ite_none_right_eq_some,
    Option.some.injEq]
  exact ⟨fun ⟨o, ho, hb, ht⟩ => ⟨o, ho, hb, ht.symm⟩, fun ⟨o, ho, hb, ht⟩ => ⟨o, ho, hb, ht.symm⟩⟩

/-- A store changes the elements at one position. -/
theorem get?_set? {t t' : Tensor α} {sub : List Int} {v : α} (h : t.set? sub v = some t')
    (sub' : List Int) :
    t'.get? sub' = if t.offset sub' = t.offset sub then some v else t.get? sub' := by
  obtain ⟨o, ho, ⟨lo, hi⟩, rfl⟩ := set?_eq_some_iff.1 h
  simp only [get?, Option.bind_eq_bind]
  rw [show Tensor.offset { t with data := t.data.setIfInBounds o.toNat v } sub' = t.offset sub' from rfl, ho]
  cases ho' : t.offset sub' with
  | none => simp
  | some o' =>
    simp only [Option.bind_some, Option.some.injEq, Array.getElem?_setIfInBounds]
    by_cases hneg : o' < 0
    · rw [if_pos hneg, if_pos hneg, if_neg (by omega)]
    · rw [if_neg hneg, if_neg hneg]
      by_cases heq : o' = o
      · subst heq
        rw [if_pos rfl, if_pos rfl, if_pos (by omega)]
      · rw [if_neg heq, if_neg (by omega)]

/-- A tensor has the elements that its shape asks for. -/
def Full (t : Tensor α) (stored : Shape) : Prop :=
  t.dims = stored ∧ (t.data.size : Int) = Shape.count stored

instance {t : Tensor α} {stored : Shape} : Decidable (t.Full stored) :=
  inferInstanceAs (Decidable (_ ∧ _))

theorem Full.get?_eq {t : Tensor α} {stored : Shape} (h : t.Full stored)
    (hc : Shape.count stored ≤ 0x8000000000000000) {sub : List Int} (hsub : InRange stored sub) :
    t.get? sub = t.data[(flatten stored sub).toNat]? := by
  have hb := flatten_bounds hsub
  rw [get?, offset, h.1, rowMajor_eq hsub hc, Option.bind_eq_bind, Option.bind_some,
    if_neg (by omega)]

/-- A full tensor has an element at every index. -/
theorem Full.get?_isSome {t : Tensor α} {stored : Shape} (h : t.Full stored)
    (hc : Shape.count stored ≤ 0x8000000000000000) {sub : List Int} (hsub : InRange stored sub) :
    (t.get? sub).isSome := by
  have hb := flatten_bounds hsub
  have hsize := h.2
  rw [h.get?_eq hc hsub, Array.getElem?_eq_getElem (by omega)]
  rfl

/-- A store into a full tensor changes the element at one index. -/
theorem Full.set?_spec {t : Tensor α} {stored : Shape} (h : t.Full stored)
    (hc : Shape.count stored ≤ 0x8000000000000000) {sub : List Int} (hsub : InRange stored sub)
    (v : α) : ∃ t', t.set? sub v = some t' ∧ t'.Full stored ∧
      ∀ sub', InRange stored sub' → t'.get? sub' = if sub' = sub then some v else t.get? sub' := by
  have hb := flatten_bounds hsub
  have hsize := h.2
  have hoff : ∀ {sub}, InRange stored sub → t.offset sub = some (flatten stored sub) := fun hsub => by
    rw [offset, h.1, rowMajor_eq hsub hc]
  have hset : t.set? sub v = some { t with
      data := t.data.setIfInBounds (flatten stored sub).toNat v } :=
    set?_eq_some_iff.2 ⟨_, hoff hsub, ⟨hb.1, by omega⟩, rfl⟩
  refine ⟨_, hset, ⟨h.1, by simpa using hsize⟩, fun sub' hsub' => ?_⟩
  rw [get?_set? hset, hoff hsub', hoff hsub]
  refine if_congr ⟨fun heq => flatten_inj hsub' hsub (Option.some.inj heq), fun heq => heq ▸ rfl⟩ rfl rfl

/-- Full tensors with the same elements at all indices are equal. -/
theorem Full.ext {t u : Tensor α} {stored : Shape} (ht : t.Full stored) (hu : u.Full stored)
    (hnonneg : ∀ d ∈ stored, 0 ≤ d) (hc : Shape.count stored ≤ 0x8000000000000000)
    (h : ∀ sub, InRange stored sub → t.get? sub = u.get? sub) : t = u := by
  have hsizes : t.data.size = u.data.size := by
    have h₁ := ht.2
    have h₂ := hu.2
    omega
  have hdata : t.data = u.data := by
    refine Array.ext_getElem? fun i => ?_
    by_cases hi : i < t.data.size
    · obtain ⟨sub, hsub, hflat⟩ := exists_flatten hnonneg (o := (i : Int)) (by omega)
        (by have := ht.2; omega)
      have := h sub hsub
      rwa [ht.get?_eq hc hsub, hu.get?_eq hc hsub, hflat, Int.toNat_natCast] at this
    · rw [Array.getElem?_eq_none (by omega), Array.getElem?_eq_none (by omega)]
  cases t
  cases u
  have hdims := ht.1.trans hu.1.symm
  simp_all

end Tensor

/-! ## Cells -/

/-- The positions in the stored shapes fit in a word. -/
def Shapes.Countable (S : Shapes) : Prop :=
  ∀ name stored, S name = some stored → Shape.count stored ≤ 0x8000000000000000

/-- Two memories hold the same at the subscripts in range. -/
def Cells.Agree (S : Shapes) (σ τ : Cells α) : Prop :=
  ∀ name stored sub, S name = some stored → InRange stored sub → σ name sub = τ name sub

/-- The cells after a store through an identifier. -/
def Cells.put (σ : Cells α) (n : Node) (idx : List Int) (v : α) : Cells α := fun name sub =>
  if name = n.name ∧ n.own? sub = some idx then some v else σ name sub

/-- A memory holds every tensor with all its elements. -/
def Memory.Fits (S : Shapes) (mem : Memory α) : Prop :=
  ∀ name stored, S name = some stored → ∃ t, mem.get? name = some t ∧ t.Full stored

variable {S : Shapes} {mem : Memory α}

namespace Cells.Agree

theorem refl (σ : Cells α) : Cells.Agree S σ σ := fun _ _ _ _ _ => rfl

theorem symm {σ τ : Cells α} (h : Cells.Agree S σ τ) : Cells.Agree S τ σ :=
  fun name stored sub hS hsub => (h name stored sub hS hsub).symm

theorem trans {σ τ υ : Cells α} (h : Cells.Agree S σ τ) (h' : Cells.Agree S τ υ) :
    Cells.Agree S σ υ :=
  fun name stored sub hS hsub => (h name stored sub hS hsub).trans (h' name stored sub hS hsub)

theorem put {σ τ : Cells α} (h : Cells.Agree S σ τ) (n : Node) (idx : List Int) (v : α) :
    Cells.Agree S (σ.put n idx v) (τ.put n idx v) := by
  intro name stored sub hS hsub
  simp only [Cells.put, h name stored sub hS hsub]

/-- A well-shaped tree has the same value in memories that agree. -/
theorem eval_eq [Scalar α] {N : NodeClass} (hN : N.Sized) {σ τ : Cells α} (h : Cells.Agree S σ τ)
    {t : Tree} (ht : t.Typed N.Admits S) {idx : List Int} (hidx : InRange t.shape idx) :
    t.eval σ idx = t.eval τ idx := by
  refine Tree.eval_congr hN.admits ht hidx fun name sub htouch => ?_
  obtain ⟨stored, hS, hsub⟩ := htouch.inRange ht hidx
  exact h name stored sub hS hsub

end Cells.Agree

theorem Cells.put_put (σ : Cells α) (n : Node) (idx : List Int) (v w : α) :
    (σ.put n idx v).put n idx w = σ.put n idx w := by
  funext name sub
  simp only [Cells.put]
  split <;> rfl

theorem Cells.put_of_ne {σ : Cells α} {n : Node} {idx : List Int} {v : α} {name : String}
    (h : name ≠ n.name) : σ.put n idx v name = σ name := by
  funext sub
  exact if_neg fun hboth => h hboth.1

theorem Cells.put_own {σ : Cells α} {n : Node} {idx sub : List Int} {v : α}
    (h : n.own? sub = some idx) : σ.put n idx v n.name sub = some v := if_pos ⟨rfl, h⟩

theorem Memory.Fits.contains (h : mem.Fits S) {name : String} {stored : Shape}
    (hS : S name = some stored) : mem.contains name = true := by
  obtain ⟨t, ht, -⟩ := h name stored hS
  rw [OrderedMap.contains, ht]
  rfl

/-- Every cell of a stored tensor has contents. -/
theorem Memory.Fits.isSome (h : mem.Fits S) (hS : S.Countable) {name : String} {stored : Shape}
    (hstored : S name = some stored) {sub : List Int} (hsub : InRange stored sub) :
    (cellsOf mem name sub).isSome := by
  obtain ⟨t, ht, hfull⟩ := h name stored hstored
  rw [cellsOf, ht, Option.bind_eq_bind, Option.bind_some]
  exact hfull.get?_isSome (hS name stored hstored) hsub

/-- A memory changed in one tensor at most. -/
structure Memory.Alters (mem : Memory α) (name : String) (mem' : Memory α) : Prop where
  keys : mem'.keys = mem.keys
  others : ∀ m, m ≠ name → mem'.get? m = mem.get? m

theorem Memory.Alters.refl (mem : Memory α) (name : String) : mem.Alters name mem :=
  ⟨rfl, fun _ _ => rfl⟩

theorem Memory.Alters.trans {name : String} {mem mem₁ mem₂ : Memory α} (h : mem.Alters name mem₁)
    (h' : mem₁.Alters name mem₂) : mem.Alters name mem₂ :=
  ⟨h'.keys.trans h.keys, fun m hm => (h'.others m hm).trans (h.others m hm)⟩

/-- A store through an identifier changes the cell at its index. -/
theorem storeAt_spec (h : mem.Fits S) (hS : S.Countable) {n : Node} {stored : Shape}
    (hstored : S n.name = some stored) (hviews : n.Views stored) {idx : List Int}
    (hidx : InRange n.shape idx) (v : α) :
    ∃ mem', storeAt mem n idx v = some mem' ∧ mem'.Fits S ∧ mem.Alters n.name mem' ∧
      Cells.Agree S (cellsOf mem') ((cellsOf mem).put n idx v) := by
  obtain ⟨sub, hsub, hin⟩ := hviews.subscript_inRange hidx
  have hown : n.own? sub = some idx := Node.own?_eq_some_iff.mpr ⟨hsub, hidx⟩
  obtain ⟨t, ht, hfull⟩ := h n.name stored hstored
  obtain ⟨t', hset, hfull', hget⟩ := hfull.set?_spec (hS n.name stored hstored) hin v
  rcases mem.change?_cases n.name (·.set? sub v) with
    ⟨-, hnone⟩ | ⟨u, u', mem', hu, hu', hch, hkeys, hget'⟩
  · rw [ht, Option.bind_some, hset] at hnone
    cases hnone
  · rw [ht] at hu
    cases hu
    rw [hset] at hu'
    cases hu'
    refine ⟨mem', ?_, ?_, ⟨hkeys, fun m hm => (hget' m).trans (if_neg hm)⟩, ?_⟩
    · rw [storeAt, hsub, Option.bind_eq_bind, Option.bind_some, hch]
    · intro name stored' hname
      by_cases heq : name = n.name
      · subst heq
        rw [hstored] at hname
        cases hname
        exact ⟨t', by rw [hget', if_pos rfl], hfull'⟩
      · obtain ⟨u, hu, hfull⟩ := h name stored' hname
        exact ⟨u, by rw [hget', if_neg heq, hu], hfull⟩
    · intro name stored' sub' hname hsub'
      rw [Cells.put, cellsOf, hget']
      by_cases heq : name = n.name
      · subst heq
        rw [hstored] at hname
        cases hname
        rw [if_pos rfl, Option.bind_eq_bind, Option.bind_some, hget sub' hsub', cellsOf, ht,
          Option.bind_eq_bind, Option.bind_some]
        refine if_congr ⟨fun heq => ⟨rfl, heq ▸ hown⟩, fun heq => ?_⟩ rfl rfl
        have hsub₂ := (Node.own?_eq_some_iff.mp heq.2).1
        rw [hsub] at hsub₂
        exact (Option.some.inj hsub₂).symm
      · rw [if_neg heq, if_neg fun hboth => heq hboth.1]
        rfl

/-- A store to a destination of a clause. -/
theorem Clause.Fits.store_spec {N : NodeClass} {find : Symbols} {c : Clause} (h : c.Fits N find)
    {mem : Memory α} (hmem : mem.Fits find.shapes) (hS : find.shapes.Countable) {idx : List Int}
    (hidx : InRange c.target.shape idx) (v : α) :
    ∃ mem', storeAt mem c.target idx v = some mem' ∧ mem'.Fits find.shapes ∧ mem.Alters c.name mem' ∧
      Cells.Agree find.shapes (cellsOf mem') ((cellsOf mem).put c.target idx v) := by
  obtain ⟨s, hs, hviews, -⟩ := h.declared
  exact storeAt_spec hmem hS (Symbols.shapes_eq hs) hviews hidx v

end LoopNest
