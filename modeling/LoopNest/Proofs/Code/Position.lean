import Mathlib.Tactic.Linarith
import Mathlib.Tactic.Ring
import LoopNest.C.Emit
import LoopNest.C.Run
import LoopNest.Proofs.Memory

/-!
# Arrays of kernels

`position` is the place of an element in an array of a given layout. The addresses that are written
for a subscript evaluate to it (`offsetOf_spec`), without overflow as long as the elements can be
counted by an `int`. Loads and stores at addresses in range are then loads and stores of cells
(`load_eq`, `store_spec`).
-/

namespace LoopNest

theorem InRange.reverse {ds is : List Int} (h : InRange ds is) : InRange ds.reverse is.reverse :=
  inRange_iff_forall₂.mpr (List.forall₂_reverse_iff.mpr (inRange_iff_forall₂.mp h))

theorem Shape.count_reverse (s : Shape) : count s.reverse = count s := count_perm (List.reverse_perm s)

namespace C

variable {layout : Layout} {dims sub : List Int}

/-! ## Positions -/

/-- The place of an element: the axes from the last to the first are those of a row-major array when
the first axis is contiguous. -/
def position : Layout → List Int → List Int → Int
  | .rowMajor, dims, sub => flatten dims sub
  | .columnMajor, dims, sub => flatten dims.reverse sub.reverse

theorem position_bounds (layout : Layout) (h : InRange dims sub) :
    0 ≤ position layout dims sub ∧ position layout dims sub < Shape.count dims := by
  cases layout with
  | rowMajor => exact flatten_bounds h
  | columnMajor => exact Shape.count_reverse dims ▸ flatten_bounds h.reverse

theorem position_inj {sub' : List Int} (h : InRange dims sub) (h' : InRange dims sub')
    (heq : position layout dims sub = position layout dims sub') : sub = sub' := by
  cases layout with
  | rowMajor => exact flatten_inj h h' heq
  | columnMajor => exact List.reverse_injective (flatten_inj h.reverse h'.reverse heq)

theorem exists_position (layout : Layout) (hpos : ∀ d ∈ dims, 0 < d) {o : Int} (lo : 0 ≤ o)
    (hi : o < Shape.count dims) : ∃ sub, InRange dims sub ∧ position layout dims sub = o := by
  cases layout with
  | rowMajor => exact exists_flatten (fun d hd => Int.le_of_lt (hpos d hd)) lo hi
  | columnMajor =>
    obtain ⟨sub, hsub, hflat⟩ := exists_flatten
      (fun d hd => Int.le_of_lt (hpos d (List.mem_reverse.mp hd))) lo (by rwa [Shape.count_reverse])
    exact ⟨sub.reverse, List.reverse_reverse dims ▸ hsub.reverse, by
      rw [position, List.reverse_reverse, hflat]⟩

/-- The first axis of a column-major array is contiguous. -/
theorem position_columnMajor_cons {d i : Int} (h : InRange dims sub) :
    position .columnMajor (d :: dims) (i :: sub) = i + d * position .columnMajor dims sub := by
  rw [position, position, List.reverse_cons, List.reverse_cons, flatten_append h.reverse]
  simp [Int.mul_comm, Int.add_comm]

/-! ## Addresses -/

theorem int?_eq {n : Int} (lo : 0 ≤ n) (hi : n < 0x80000000) : int? n = some n := if_pos ⟨by omega, hi⟩

/-- One more index, as long as the result fits. -/
theorem Offset.eval_step {α : Type} {f : Locals α} {i : Index} {inner : Offset} {d v a : Int}
    (hi : i.eval f = some v) (ha : inner.eval f = some a) (hv : 0 ≤ v) (hd : 0 ≤ d * a)
    (hlt : v + d * a < 0x80000000) : (Offset.step i d inner).eval f = some (v + d * a) := by
  rw [Offset.eval, hi, ha]
  simp only [Option.bind_eq_bind, Option.bind_some]
  rw [int?_eq hd (by omega), Option.bind_some, int?_eq (by omega) hlt]

/-- Indices have given values in a scope. -/
def Evaluates {α : Type} (f : Locals α) (is : List Index) (vals : List Int) : Prop :=
  List.Forall₂ (fun i v => Index.eval f i = some v) is vals

theorem rowOffset_spec {is : List Index} {ds : List Int} (hlen : is.length = ds.length) (acc : Offset) :
    ∃ o, rowOffset acc is ds = some o ∧ ∀ {α : Type} {f : Locals α} {vals : List Int} {a : Int},
      Evaluates f is vals → InRange ds vals → acc.eval f = some a → 0 ≤ a →
      a * Shape.count ds + flatten ds vals < 0x80000000 →
      o.eval f = some (a * Shape.count ds + flatten ds vals) := by
  induction is generalizing ds acc with
  | nil =>
    refine ⟨acc, rfl, fun hvals hin ha _ _ => ?_⟩
    cases hvals
    cases hin
    simpa using ha
  | cons i is ih =>
    cases ds with
    | nil => simp at hlen
    | cons d ds =>
      obtain ⟨o, ho, heval⟩ := ih (by simpa using hlen) (.step i d acc)
      refine ⟨o, ho, fun {_ _ _ a} hvals hin ha h0 hlt => ?_⟩
      cases hvals with
      | @cons _ v _ vals hi hvals =>
        cases hin with
        | cons lo hi' hin =>
          have hcount := Shape.count_pos hin.pos
          have hflat := (flatten_bounds hin).1
          have hda : 0 ≤ d * a := Int.mul_nonneg (by omega) h0
          have hval : a * Shape.count (d :: ds) + flatten (d :: ds) (v :: vals) =
              (v + d * a) * Shape.count ds + flatten ds vals := by
            rw [Shape.count_cons, flatten_cons]
            ring
          have hle : v + d * a ≤ (v + d * a) * Shape.count ds := le_mul_of_one_le_right (by omega) hcount
          rw [hval] at hlt ⊢
          exact heval hvals hin (Offset.eval_step hi ha lo hda (by omega)) (by omega) hlt

theorem columnOffset_spec {i : Index} {is : List Index} {d : Int} {ds : List Int}
    (hlen : is.length = ds.length) :
    ∃ o, columnOffset i is (d :: ds) = some o ∧
      ∀ {α : Type} {f : Locals α} {v : Int} {vals : List Int}, Evaluates f (i :: is) (v :: vals) →
        InRange (d :: ds) (v :: vals) → Shape.count (d :: ds) ≤ 0x80000000 →
        o.eval f = some (position .columnMajor (d :: ds) (v :: vals)) := by
  induction is generalizing i d ds with
  | nil =>
    refine ⟨.index i, rfl, fun hvals hin _ => ?_⟩
    cases hvals with
    | cons hi hvals =>
      cases hvals
      cases hin with
      | cons _ _ hin =>
        cases hin
        rw [Offset.eval, hi]
        simp [position]
  | cons j js ih =>
    cases ds with
    | nil => simp at hlen
    | cons e ds =>
      obtain ⟨o, ho, heval⟩ := ih (i := j) (d := e) (by simpa using hlen)
      refine ⟨.step i d o, by rw [columnOffset, ho]; rfl, fun hvals hin hcount => ?_⟩
      have hbound := position_bounds .columnMajor hin
      cases hvals with
      | cons hi hvals =>
        cases hin with
        | @cons v _ vals _ lo hlt hin =>
          have hinner := position_bounds .columnMajor hin
          have hpos := Shape.count_pos hin.pos
          rw [position_columnMajor_cons hin] at hbound ⊢
          rw [Shape.count_cons] at hcount hbound
          have hle : Shape.count (e :: ds) ≤ d * Shape.count (e :: ds) :=
            le_mul_of_one_le_left (by omega) (by omega)
          cases hvals with
          | cons hj hvals =>
            exact Offset.eval_step hi (heval (.cons hj hvals) hin (by omega)) lo
              (Int.mul_nonneg (by omega) hinner.1) (by omega)

/-! ### What addresses are made of -/

/-- The indices of an address. -/
def Offset.indices : Offset → List Index
  | .index i => [i]
  | .step i _ inner => i :: inner.indices

/-- The extents of an address. -/
def Offset.extents : Offset → List Int
  | .index _ => []
  | .step _ extent inner => extent :: inner.extents

theorem rowOffset_subset {acc o : Offset} {is : List Index} {ds : List Int}
    (h : rowOffset acc is ds = some o) :
    o.indices ⊆ acc.indices ++ is ∧ o.extents ⊆ acc.extents ++ ds := by
  induction is generalizing acc ds with
  | nil =>
    cases h
    exact ⟨List.subset_append_left _ _, List.subset_append_left _ _⟩
  | cons i is ih =>
    cases ds with
    | nil => cases h
    | cons d ds =>
      obtain ⟨hindices, hextents⟩ := ih h
      refine ⟨fun j hj => ?_, fun e he => ?_⟩
      · simpa [Offset.indices, or_left_comm, or_assoc] using hindices hj
      · simpa [Offset.extents, or_left_comm, or_assoc] using hextents he

theorem columnOffset_subset {i : Index} {o : Offset} {is : List Index} {ds : List Int}
    (h : columnOffset i is ds = some o) : o.indices ⊆ i :: is ∧ o.extents ⊆ ds := by
  induction is generalizing i ds o with
  | nil =>
    cases h
    exact ⟨List.Subset.refl _, List.nil_subset _⟩
  | cons j js ih =>
    cases ds with
    | nil => cases h
    | cons d ds =>
      rw [columnOffset, Option.bind_eq_bind, Option.bind_eq_some_iff] at h
      obtain ⟨inner, hinner, h⟩ := h
      cases h
      obtain ⟨hindices, hextents⟩ := ih hinner
      exact ⟨List.cons_subset_cons i hindices, List.cons_subset_cons d hextents⟩

/-- The address of an element is made of its subscript and of the extents of its tensor. -/
theorem offsetOf_subset {is : List Index} {dims : Shape} {o : Offset}
    (h : offsetOf layout is dims = some o) : (o.indices ⊆ is ∨ o.indices = [.fixed 0]) ∧ o.extents ⊆ dims := by
  cases is with
  | nil =>
    cases layout <;> cases h <;> exact ⟨.inr rfl, List.nil_subset _⟩
  | cons i is =>
    cases layout with
    | rowMajor =>
      obtain ⟨hindices, hextents⟩ := rowOffset_subset h
      exact ⟨.inl hindices, fun e he => List.mem_of_mem_tail (hextents he)⟩
    | columnMajor =>
      obtain ⟨hindices, hextents⟩ := columnOffset_subset h
      exact ⟨.inl hindices, hextents⟩

/-- The address that is written for a subscript evaluates to the position of the element. -/
theorem offsetOf_spec (layout : Layout) {is : List Index} {dims : Shape}
    (hlen : is.length = dims.length) :
    ∃ o, offsetOf layout is dims = some o ∧ ∀ {α : Type} {f : Locals α} {vals : List Int},
      Evaluates f is vals → InRange dims vals → Shape.count dims ≤ 0x80000000 →
      o.eval f = some (position layout dims vals) := by
  cases is with
  | nil =>
    refine ⟨.index (.fixed 0), rfl, fun hvals hin _ => ?_⟩
    cases hvals
    cases hin
    cases layout <;> rfl
  | cons i is =>
    cases dims with
    | nil => simp at hlen
    | cons d ds =>
      have hlen : is.length = ds.length := by simpa using hlen
      cases layout with
      | columnMajor =>
        obtain ⟨o, ho, heval⟩ := columnOffset_spec (i := i) (d := d) hlen
        refine ⟨o, ho, fun hvals hin hcount => ?_⟩
        cases hvals with
        | cons hi hvals => exact heval (.cons hi hvals) hin hcount
      | rowMajor =>
        obtain ⟨o, ho, heval⟩ := rowOffset_spec hlen (.index i)
        refine ⟨o, ho, fun hvals hin hcount => ?_⟩
        have hbound := position_bounds .rowMajor hin
        cases hvals with
        | cons hi hvals =>
          cases hin with
          | cons lo _ hin => exact heval hvals hin hi lo (Int.lt_of_lt_of_le hbound.2 hcount)

/-! ## Cells -/

variable {α : Type} {S : Shapes} {A : Arrays α}

/-- The cells of arrays that hold tensors of given shapes. -/
def cellsIn (layout : Layout) (S : Shapes) (A : Arrays α) : Cells α := fun name sub => do
  let stored ← S name
  (← A.get? name)[(position layout stored sub).toNat]?

/-- Every tensor has an array with all its elements, which can be addressed by an `int`. -/
def Holds (S : Shapes) (A : Arrays α) : Prop :=
  ∀ name stored, S name = some stored →
    ∃ a : Array α, A.get? name = some a ∧ (a.size : Int) = Shape.count stored

/-- Tensors with few enough elements to be addressed by an `int`. -/
def Addressable (S : Shapes) : Prop :=
  ∀ name stored, S name = some stored → (∀ d ∈ stored, 0 < d) ∧ Shape.count stored < 0x80000000

theorem cellsIn_eq {name : String} {stored : Shape} {a : Array α} (hS : S name = some stored)
    (ha : A.get? name = some a) (sub : List Int) :
    cellsIn layout S A name sub = a[(position layout stored sub).toNat]? := by
  rw [cellsIn, hS, ha]
  rfl

theorem Holds.isSome (h : Holds S A) {name : String} {stored : Shape} {sub : List Int}
    (hS : S name = some stored) (hsub : InRange stored sub) : (cellsIn layout S A name sub).isSome := by
  obtain ⟨a, ha, hsize⟩ := h name stored hS
  obtain ⟨lo, hi⟩ := position_bounds layout hsub
  rw [cellsIn_eq hS ha, isSome_getElem?]
  omega

theorem bounded?_eq {a : Array α} {o : Int} (lo : 0 ≤ o) (hi : o < a.size) :
    bounded? a o = some o.toNat := if_pos ⟨lo, hi⟩

/-- What is loaded is the cell at the address. -/
theorem Holds.load_eq (h : Holds S A) {f : Locals α} {name : String} {stored : Shape} {sub : List Int}
    {o : Offset} (hS : S name = some stored) (hsub : InRange stored sub)
    (ho : o.eval f = some (position layout stored sub)) :
    Element.load f A ⟨name, o⟩ = cellsIn layout S A name sub := by
  obtain ⟨a, ha, hsize⟩ := h name stored hS
  obtain ⟨lo, hi⟩ := position_bounds layout hsub
  rw [Element.load, cellsIn_eq hS ha, ho, ha]
  simp only [Option.bind_eq_bind, Option.bind_some]
  rw [bounded?_eq lo (by omega), Option.bind_some]

/-- A store changes the cell at the address and no other. -/
theorem Holds.store_spec (h : Holds S A) {f : Locals α} {name : String} {stored : Shape} {sub : List Int}
    {o : Offset} (hS : S name = some stored) (hsub : InRange stored sub)
    (ho : o.eval f = some (position layout stored sub)) (v : α) :
    ∃ A', Element.store f A ⟨name, o⟩ v = some A' ∧ Holds S A' ∧
      (∀ name', name' ≠ name → A'.get? name' = A.get? name') ∧
      ∀ name' stored' sub', S name' = some stored' → InRange stored' sub' →
        cellsIn layout S A' name' sub' =
          if name' = name ∧ sub' = sub then some v else cellsIn layout S A name' sub' := by
  obtain ⟨a, ha, hsize⟩ := h name stored hS
  obtain ⟨lo, hi⟩ := position_bounds layout hsub
  rw [Element.store, ho, Option.bind_eq_bind, Option.bind_some]
  rcases A.change?_cases name (fun a => (bounded? a (position layout stored sub)).bind fun i =>
      some (a.setIfInBounds i v)) with ⟨-, hnone⟩ | ⟨a', b, A', ha', hb, hsome, -, hget⟩
  · rw [ha, Option.bind_some, bounded?_eq lo (by omega)] at hnone
    cases hnone
  rw [ha] at ha'
  cases ha'
  rw [bounded?_eq lo (by omega)] at hb
  cases hb
  have hother : ∀ name', name' ≠ name → A'.get? name' = A.get? name' := fun name' hne => by
    rw [hget, if_neg hne]
  have hown : A'.get? name = some (a.setIfInBounds (position layout stored sub).toNat v) := by
    rw [hget, if_pos rfl]
  refine ⟨A', hsome, fun name' stored' hS' => ?_, hother, fun name' stored' sub' hS' hsub' => ?_⟩
  · by_cases hname : name' = name
    · subst hname
      rw [hS] at hS'
      cases hS'
      exact ⟨_, hown, by rw [Array.size_setIfInBounds, hsize]⟩
    · rw [hother name' hname]
      exact h name' stored' hS'
  · by_cases hname : name' = name
    · subst hname
      rw [hS] at hS'
      cases hS'
      have hlt : (position layout stored sub).toNat < a.size := by omega
      rw [cellsIn_eq hS hown, cellsIn_eq hS ha, Array.getElem?_setIfInBounds]
      by_cases hsame : sub' = sub
      · subst hsame
        simp [hlt]
      · have hne : (position layout stored sub).toNat ≠ (position layout stored sub').toNat := by
          intro heq
          have hbound' := position_bounds layout hsub'
          exact hsame (position_inj hsub' hsub
            (show position layout stored sub' = position layout stored sub by omega))
        rw [if_neg hne, if_neg fun h => hsame h.2]
    · obtain ⟨a', ha', -⟩ := h name' stored' hS'
      rw [cellsIn_eq hS' ((hother name' hname).trans ha'), cellsIn_eq hS' ha',
        if_neg fun h => hname h.1]

end C

end LoopNest
