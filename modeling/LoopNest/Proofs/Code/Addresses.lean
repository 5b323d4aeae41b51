import LoopNest.C.Arithmetic
import LoopNest.Proofs.Code.Literals
import LoopNest.Proofs.Code.Position
import LoopNest.Proofs.Verification

/-!
# The texts of addresses

An address is written as one nested text, from the inside out. The text is cut into the tokens of the
address (`tokens_render`), and they have the value of the address (`valueOf?_render`).
-/

namespace LoopNest.C

open Compiler

/-! ## Literals -/

theorem digits_toDigits {n : Nat} (h : n ≠ 0) :
    Literal.digits (Nat.toDigits 10 n) = (10, Nat.toDigits 10 n) := by
  obtain ⟨c, cs, hcs, hc⟩ := exists_toDigits h
  rw [hcs, Literal.digits]
  all_goals simp [hc]

/-- Digits without letters after them are of type `int` if their value is. -/
theorem type_eq_int {v : Nat} (h : Integer.int.holds v = true) :
    (⟨v, true, false, 0⟩ : Literal.Whole).type = .int := by
  obtain ⟨fits, hfits⟩ : ∃ fits : Integer → Bool, fits = (·.holds v) := ⟨_, rfl⟩
  have hint : fits .int = true := by rw [hfits]; exact h
  rw [Literal.Whole.type]
  simp only [← hfits, Bool.false_eq_true, if_false, if_true, Nat.zero_le, List.cons_append,
    List.nil_append, List.find?_cons, hint]

theorem literal?_toString {k : Int} (lo : 0 ≤ k) (hi : k < 0x80000000) : literal? (toString k) = some k := by
  obtain ⟨n, rfl⟩ := Int.eq_ofNat_of_zero_le lo
  rcases Nat.eq_zero_or_pos n with rfl | hn
  · have hzero : Literal.whole? (toString ((0 : Nat) : Int)) = some ⟨0, false, false, 0⟩ := rfl
    have htype : (⟨0, false, false, 0⟩ : Literal.Whole).type = .int := rfl
    rw [literal?, hzero, Option.bind_eq_bind, Option.bind_some, if_pos htype]
  · have hchars : (toString (n : Int)).toList = Nat.toDigits 10 n := Nat.toList_repr
    have htake : (Nat.toDigits 10 n).takeWhile (Literal.isDigitOf 10) = Nat.toDigits 10 n := by
      rw [← List.append_nil (Nat.toDigits 10 n), List.takeWhile_append_of_pos fun c hc =>
        Literal.isDigitOf_ten (isDigit_toDigits n c hc), List.takeWhile_nil]
    have hwhole : Literal.whole? (toString (n : Int)) = some ⟨n, true, false, 0⟩ := by
      rw [Literal.whole?, hchars, digits_toDigits (by omega)]
      simp only [htake, Literal.value_toDigits, List.drop_length, List.isEmpty_eq_false_iff.mpr Nat.toDigits_ne_nil]
      rfl
    have hint : Integer.int.holds n = true := by
      have hrange : (decide (-2147483648 ≤ (n : Int)) && decide ((n : Int) < 2147483648)) = true := by
        rw [Bool.and_eq_true, decide_eq_true_eq, decide_eq_true_eq]
        omega
      rw [Integer.holds, beq_iff_eq, Integer.wrap, if_pos hrange]
    rw [literal?, hwhole, Option.bind_eq_bind, Option.bind_some, if_pos (type_eq_int hint)]

/-! ## Addresses -/

/-- An index that can be written in C: the name of a variable or a position of type `int`. -/
def Index.Plain : Index → Prop
  | .loop name => IsName name
  | .fixed k => 0 ≤ k ∧ k < 0x80000000

/-- An address that can be written in C. -/
def Offset.Plain : Offset → Prop
  | .index i => i.Plain
  | .step i extent inner => i.Plain ∧ (0 ≤ extent ∧ extent < 0x80000000) ∧ inner.Plain

theorem Offset.Plain.named {o : Offset} (ho : o.Plain) : o.Named := by
  have hindex : ∀ {i : Index}, i.Plain → ∀ name, i = .loop name → IsName name := by
    rintro _ hi name rfl
    exact hi
  induction o with
  | index i => exact hindex ho
  | step i extent inner ih => exact ⟨hindex ho.1, ih ho.2.2⟩

theorem tokens_render {o : Offset} (ho : o.Plain) :
    (Token.ofLine [] 0 o.render.toList).map (·.token) = o.tokens := by
  have h := cut_offset ho.named Ends.nil
  rwa [List.append_nil, cut_nil, List.append_nil] at h

theorem intTokens_eq {k : Int} (hk : 0 ≤ k) : intTokens k = [.number (toString k)] := by
  obtain ⟨n, rfl⟩ := Int.eq_ofNat_of_zero_le hk
  rfl

/-! ## Values -/

section

variable {α : Type} (f : Locals α)

/-- Tokens are read as one factor of a value, wherever they stand. -/
def IsFactor (ts : List Token) (v : Option Int) : Prop :=
  ∀ outer s rest, factor? f.indices outer s (ts ++ rest) =
    v.bind fun v => (s.times? v).bind fun s => afterFactor? f.indices outer s rest

/-- Tokens are read as a sum of a value, up to where its brackets are closed. -/
def IsSum (ts : List Token) (v : Option Int) : Prop :=
  ∃ sum : Option OpenSum, sum.bind OpenSum.value? = v ∧ ∀ outer rest,
    factor? f.indices outer {} (ts ++ rest) = sum.bind fun s => afterFactor? f.indices outer s rest

variable {f}

theorem isFactor_index {i : Index} (hi : i.Plain) : IsFactor f i.tokens (i.eval f) := by
  intro outer s rest
  cases i with
  | loop name => rfl
  | fixed k =>
    rw [Index.tokens, intTokens_eq hi.1, List.singleton_append, factor?, literal?_toString hi.1 hi.2]
    rfl

/-- A sum in brackets is a factor. -/
theorem IsSum.isFactor {ts : List Token} {v : Option Int} (h : IsSum f ts v) :
    IsFactor f (.mark "(" :: (ts ++ [.mark ")"])) v := by
  obtain ⟨sum, rfl, hreads⟩ := h
  intro outer s rest
  calc factor? f.indices outer s (.mark "(" :: (ts ++ [.mark ")"]) ++ rest)
    _ = factor? f.indices (s :: outer) {} (ts ++ (.mark ")" :: rest)) := by
        rw [List.cons_append, List.append_assoc, List.singleton_append]
        rfl
    _ = sum.bind fun inner => inner.value?.bind fun v => (s.times? v).bind fun s =>
          afterFactor? f.indices outer s rest := hreads (s :: outer) (.mark ")" :: rest)
    _ = _ := by rw [Option.bind_assoc]

theorem isSum_index {i : Index} (hi : i.Plain) : IsSum f i.tokens (i.eval f) := by
  refine ⟨(i.eval f).map fun v => ⟨none, some v⟩, ?_, fun outer rest => ?_⟩
  · cases i.eval f <;> rfl
  · rw [isFactor_index hi]
    cases i.eval f <;> rfl

/-- An index plus a product is a sum. Its first term is complete when the product is read. -/
theorem isSum_step {i : Index} (hi : i.Plain) {extent : Int} (lo : 0 ≤ extent)
    (hlt : extent < 0x80000000) {ts : List Token} {v : Option Int} (h : IsFactor f ts v) :
    IsSum f (i.tokens ++ .mark "+" :: (intTokens extent ++ .mark "*" :: ts)) (do
      int? ((← i.eval f) + (← int? (extent * (← v))))) := by
  refine ⟨(i.eval f).bind fun x => v.bind fun a => (int? (extent * a)).map fun y => ⟨some x, some y⟩,
    ?_, fun outer rest => ?_⟩
  · cases i.eval f with
    | none => rfl
    | some x =>
      cases v with
      | none => rfl
      | some a => cases hy : int? (extent * a) <;> simp [hy, OpenSum.value?]
  · have hproduct : ∀ x, afterFactor? f.indices outer ⟨none, some x⟩
          (.mark "+" :: (intTokens extent ++ .mark "*" :: (ts ++ rest))) =
        v.bind fun a => (int? (extent * a)).bind fun y =>
          afterFactor? f.indices outer ⟨some x, some y⟩ rest := by
      intro x
      calc _
        _ = factor? f.indices outer ⟨some x, none⟩
              (intTokens extent ++ .mark "*" :: (ts ++ rest)) := rfl
        _ = factor? f.indices outer ⟨some x, some extent⟩ (ts ++ rest) :=
            isFactor_index (i := .fixed extent) ⟨lo, hlt⟩ outer ⟨some x, none⟩ (.mark "*" :: (ts ++ rest))
        _ = _ := by
            rw [h]
            refine Option.bind_congr fun a _ => ?_
            cases hy : int? (extent * a) <;> simp [hy, OpenSum.times?]
    calc _
      _ = factor? f.indices outer {}
            (i.tokens ++ .mark "+" :: (intTokens extent ++ .mark "*" :: (ts ++ rest))) := by
          simp only [List.append_assoc, List.cons_append]
      _ = (i.eval f).bind fun x => afterFactor? f.indices outer ⟨none, some x⟩
            (.mark "+" :: (intTokens extent ++ .mark "*" :: (ts ++ rest))) :=
          isFactor_index hi outer {} _
      _ = _ := by
          rw [Option.bind_assoc]
          refine Option.bind_congr fun x _ => ?_
          rw [hproduct, Option.bind_assoc]
          refine Option.bind_congr fun a _ => ?_
          cases int? (extent * a) <;> rfl

theorem Offset.isSum {o : Offset} (ho : o.Plain) : IsSum f o.tokens (o.eval f) := by
  induction o with
  | index i => exact isSum_index ho
  | step i extent inner ih =>
    obtain ⟨hi, hextent, hinner⟩ := ho
    exact isSum_step hi hextent.1 hextent.2 (ih hinner).isFactor

/-- The text of an address has the value of the address. -/
theorem valueOf?_render {o : Offset} (ho : o.Plain) : valueOf? f.indices o.render = o.eval f := by
  obtain ⟨sum, hvalue, hreads⟩ := Offset.isSum (f := f) ho
  rw [valueOf?, tokens_render ho, ← List.append_nil o.tokens, hreads, ← hvalue]
  rfl

end

/-! ## Subscripts -/

theorem Offset.plain_iff {o : Offset} : o.Plain ↔
    (∀ i ∈ o.indices, i.Plain) ∧ ∀ e ∈ o.extents, 0 ≤ e ∧ e < 0x80000000 := by
  induction o with
  | index i => simp [Offset.Plain, Offset.indices, Offset.extents]
  | step i e inner ih => simp [Offset.Plain, Offset.indices, Offset.extents, ih, and_assoc, and_left_comm]

theorem offsetOf_plain {layout : Layout} {is : List Index} (his : ∀ i ∈ is, i.Plain) {dims : Shape}
    (hdims : ∀ d ∈ dims, 0 ≤ d ∧ d < 0x80000000) {o : Offset} (ho : offsetOf layout is dims = some o) :
    o.Plain := by
  obtain ⟨hindices, hextents⟩ := offsetOf_subset ho
  refine Offset.plain_iff.mpr ⟨fun i hi => ?_, fun e he => hdims e (hextents he)⟩
  rcases hindices with hsub | horigin
  · exact his i (hsub hi)
  · rw [horigin] at hi
    exact List.mem_singleton.mp hi ▸ ⟨Int.le_refl 0, by decide⟩

/-- An index that is written stands for a coordinate: by the name of a variable in scope, or by its
decimal text. -/
inductive Denotes (scope : List (String × Int)) : Index → Int → Prop
  | name {name : String} {v : Int} :
    IsName name → scope.lookup name = some v → Denotes scope (.loop name) v
  | decimal {v : Int} : Denotes scope (.fixed v) v

theorem evaluates_of_denotes {scope : List (String × Int)} {is : List Index} {idx dims : List Int}
    (h : List.Forall₂ (Denotes scope) is idx) (hidx : InRange dims idx)
    (hdims : ∀ d ∈ dims, d ≤ 0x80000000) :
    (∀ i ∈ is, i.Plain) ∧ Evaluates (⟨scope, []⟩ : Locals Unit) is idx := by
  induction h generalizing dims with
  | nil => exact ⟨by simp, .nil⟩
  | @cons i v is idx hi _ ih =>
    cases hidx with
    | cons lo hlt hidx =>
      rw [List.forall_mem_cons] at hdims
      obtain ⟨hplain, heval⟩ := ih hidx hdims.2
      cases hi with
      | name hname hscope => exact ⟨List.forall_mem_cons.mpr ⟨hname, hplain⟩, .cons hscope heval⟩
      | decimal =>
        have hv : (Index.fixed v).Plain := ⟨lo, Int.lt_of_lt_of_le hlt hdims.1⟩
        exact ⟨List.forall_mem_cons.mpr ⟨hv, hplain⟩, .cons rfl heval⟩

variable {dims : Shape}

/-- Positions are a bijection from the indices in range to the numbers below the element count. -/
theorem bijOn_position (layout : Layout) (hpos : ∀ d ∈ dims, 0 < d) {g : List Int → Option Int}
    (hg : ∀ idx, InRange dims idx → g idx = some (position layout dims idx)) :
    Set.BijOn g {idx | InRange dims idx} (some '' {n | 0 ≤ n ∧ n < Shape.count dims}) := by
  refine ⟨fun idx hidx => ?_, fun idx hidx idx' hidx' heq => ?_, ?_⟩
  · exact ⟨_, position_bounds layout hidx, (hg idx hidx).symm⟩
  · rw [hg idx hidx, hg idx' hidx', Option.some_inj] at heq
    exact position_inj hidx hidx' heq
  · rintro _ ⟨n, ⟨lo, hi⟩, rfl⟩
    obtain ⟨idx, hidx, hn⟩ := exists_position layout hpos lo hi
    exact ⟨idx, hidx, by rw [hg idx hidx, hn]⟩

/-- The text that is written for a subscript has the position of the element as its value. -/
theorem valueOf?_offsetOf (layout : Layout) (hpos : ∀ d ∈ dims, 0 < d)
    (hcount : Shape.count dims < 0x80000000) {scope : List (String × Int)} {is : List Index}
    {idx : List Int} (hidx : InRange dims idx) (his : List.Forall₂ (Denotes scope) is idx) :
    ∃ o, offsetOf layout is dims = some o ∧
      valueOf? scope o.render = some (position layout dims idx) := by
  have hdims : ∀ d ∈ dims, d < 0x80000000 := fun d hd =>
    Int.lt_of_le_of_lt (Shape.le_count hpos hd) hcount
  obtain ⟨hplain, heval⟩ := evaluates_of_denotes his hidx fun d hd => Int.le_of_lt (hdims d hd)
  obtain ⟨o, ho, hvalue⟩ := offsetOf_spec layout (his.length_eq.trans hidx.length_eq)
  refine ⟨o, ho, ?_⟩
  have htext := valueOf?_render (f := (⟨scope, []⟩ : Locals Unit))
    (offsetOf_plain hplain (fun d hd => ⟨Int.le_of_lt (hpos d hd), hdims d hd⟩) ho)
  exact htext.trans (hvalue heval hidx (Int.le_of_lt hcount))

/-- The text of the address of an element has the row-major offset of its index as its value, or that
of the reversed index in the reversed shape when the first axis is contiguous. Either way the indices
in range are in bijection with the numbers below the element count. -/
theorem offsetOf_text {α : Type} {t : Tensor α} (hpos : ∀ d ∈ t.dims, 0 < d)
    (hcount : Shape.count t.dims < 0x80000000) :
    (∀ scope is idx, InRange t.dims idx → List.Forall₂ (Denotes scope) is idx →
      (∃ o, offsetOf .rowMajor is t.dims = some o ∧ valueOf? scope o.render = t.offset idx) ∧
      ∃ o, offsetOf .columnMajor is t.dims = some o ∧
        valueOf? scope o.render = rowMajor t.dims.reverse idx.reverse) ∧
    Set.BijOn t.offset {idx | InRange t.dims idx} (some '' {n | 0 ≤ n ∧ n < t.dims.size}) ∧
    Set.BijOn (fun idx => rowMajor t.dims.reverse idx.reverse) {idx | InRange t.dims idx}
      (some '' {n | 0 ≤ n ∧ n < t.dims.size}) := by
  have hword : Shape.count t.dims < 0x8000000000000000 := by omega
  have hrow : ∀ idx, InRange t.dims idx → t.offset idx = some (position .rowMajor t.dims idx) :=
    fun idx hidx => rowMajor_eq hidx (Int.le_of_lt hword)
  have hcolumn : ∀ idx, InRange t.dims idx →
      rowMajor t.dims.reverse idx.reverse = some (position .columnMajor t.dims idx) :=
    fun idx hidx => rowMajor_eq hidx.reverse (Shape.count_reverse t.dims ▸ Int.le_of_lt hword)
  rw [Shape.size_eq_count hpos hword]
  refine ⟨fun scope is idx hidx his => ⟨?_, ?_⟩, bijOn_position .rowMajor hpos hrow,
    bijOn_position .columnMajor hpos hcolumn⟩
  · rw [hrow idx hidx]
    exact valueOf?_offsetOf .rowMajor hpos hcount hidx his
  · rw [hcolumn idx hidx]
    exact valueOf?_offsetOf .columnMajor hpos hcount hidx his

/-- An element of a box whose extents are all different, with a fixed position between two names. -/
theorem offsetOf_text_box :
    (∃ o, offsetOf .rowMajor [.loop "i0", .fixed 2, .loop "k1"] [2, 3, 5] = some o ∧
      o.render = "k1 + 5*(2 + 3*(i0))" ∧ valueOf? [("i0", 1), ("k1", 3)] o.render = some 28) ∧
    ∃ o, offsetOf .columnMajor [.loop "i0", .fixed 2, .loop "k1"] [2, 3, 5] = some o ∧
      o.render = "i0 + 2*(2 + 3*(k1))" ∧ valueOf? [("i0", 1), ("k1", 3)] o.render = some 23 := by
  have hdenotes : List.Forall₂ (Denotes [("i0", 1), ("k1", 3)])
      [.loop "i0", .fixed 2, .loop "k1"] [1, 2, 3] :=
    .cons (.name ⟨'i', ['0'], rfl, by decide, List.forall_mem_singleton.mpr (by decide)⟩ rfl)
      (.cons .decimal (.cons
        (.name ⟨'k', ['1'], rfl, by decide, List.forall_mem_singleton.mpr (by decide)⟩ rfl) .nil))
  obtain ⟨htext, -, -⟩ := @offsetOf_text Unit ⟨[2, 3, 5], #[]⟩ (by decide) (by decide)
  obtain ⟨⟨row, hrow, hrowValue⟩, column, hcolumn, hcolumnValue⟩ :=
    htext _ _ _ (by decide) hdenotes
  cases hrow
  cases hcolumn
  exact ⟨⟨_, rfl, by decide, hrowValue⟩, _, rfl, by decide, hcolumnValue⟩

end LoopNest.C
