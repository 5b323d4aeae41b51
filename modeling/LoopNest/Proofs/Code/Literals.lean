import LoopNest.Proofs.Code.Lexing
import Mathlib.Algebra.GroupWithZero.Nat
import Mathlib.Data.List.TakeWhile

/-!
# The texts of numbers

Integers are read back as themselves (`decimal?_repr`). The text of a finite double has digits, and a
point or an exponent, so that it is read as one literal of type double (`literalDigits_spec`): at least
one digit is not zero unless the number is, because no grid on which a decimal is looked for is so
coarse that the number is below its first step.
-/

namespace LoopNest

open C (isDigit_toDigits)
open Compiler (Token)

/-! ## Digits -/

theorem exists_toDigits {n : Nat} (h : n ≠ 0) :
    ∃ c cs, Nat.toDigits 10 n = c :: cs ∧ c ≠ '0' := by
  induction n using Nat.strongRecOn with
  | ind n ih =>
    rw [Nat.toDigits_eq_if (by decide)]
    split
    · rename_i hlt
      refine ⟨_, [], rfl, ?_⟩
      rw [ne_eq, Nat.digitChar_eq_zero]
      exact h
    · obtain ⟨c, cs, hcs, hc⟩ := ih (n / 10) (by omega) (by omega)
      exact ⟨c, cs ++ [(n % 10).digitChar], by rw [hcs, List.cons_append], hc⟩

namespace Compiler.Literal

theorem value_digits {cs : List Char} (h : ∀ c ∈ cs, c.isDigit = true) :
    value 10 cs = Nat.ofDigitChars 10 cs 0 := by
  rw [value, Nat.ofDigitChars]
  refine List.foldl_ext _ _ _ fun n c hc => ?_
  rw [digit, if_pos (h c hc)]

theorem value_toDigits (n : Nat) : value 10 (Nat.toDigits 10 n) = n :=
  (value_digits (isDigit_toDigits n)).trans Nat.ofDigitChars_ten_toDigits

theorem isDigitOf_ten {c : Char} (h : c.isDigit = true) : isDigitOf 10 c = true := by
  rw [isDigitOf, digit, if_pos h, decide_eq_true_eq]
  simp only [Char.isDigit, Bool.and_eq_true, decide_eq_true_eq, ge_iff_le, UInt32.le_iff_toNat_le] at h
  change '0'.toNat ≤ c.toNat ∧ c.toNat ≤ '9'.toNat at h
  simp only [Char.reduceToNat] at h ⊢
  omega

end Compiler.Literal

theorem C.decimal?_repr (n : Nat) : C.decimal? n.repr = some n := by
  rw [decimal?, Nat.toList_repr, Compiler.Literal.value_toDigits]
  exact if_pos rfl

/-! ## Shortest decimals -/

namespace Decimal

theorem Digits.ofScaled_digits {c : Nat} (h : c ≠ 0) (e : Int) :
    (ofScaled c e).digits ≠ [] ∧ ∀ d ∈ (ofScaled c e).digits, d.isDigit = true := by
  obtain ⟨d, ds, hds, hd⟩ := exists_toDigits h
  refine ⟨fun hnil => ?_, fun x hx => ?_⟩
  · rw [ofScaled, List.reverse_eq_nil_iff, List.dropWhile_eq_nil_iff] at hnil
    have := hnil d (by rw [hds]; simp)
    exact hd (by simpa using this)
  · rw [ofScaled, List.mem_reverse] at hx
    exact isDigit_toDigits c x (List.mem_reverse.mp ((List.dropWhile_sublist _).subset hx))

variable {b : Binary}

theorem Binary.interval_pos (hm : b.m ≠ 0) : 0 < b.interval.low ∧ 0 < b.interval.value ∧ 0 < b.interval.den := by
  have hpow : ∀ n, 0 < Nat.pow 2 n := fun n => Nat.two_pow_pos n
  simp only [interval]
  refine ⟨Nat.mul_pos ?_ ?_, Nat.mul_pos (by omega) ?_, ?_⟩
  · split <;> omega
  all_goals
    split
    · first | exact Nat.one_pos | exact hpow _
    · first | exact Nat.one_pos | exact hpow _

theorem Interval.not_contains_zero {i : Interval} (h : 0 < i.low) (e : Int) : i.contains 0 e = false := by
  have hscale : 0 < (if e < 0 then Nat.pow 10 (-e).toNat else 1) := by
    split
    · exact Nat.pow_pos (by decide)
    · exact Nat.one_pos
  have hlow := Nat.mul_pos h hscale
  have hvalue : (if e < 0 then 0 else 0 * Nat.pow 10 e.toNat) = 0 := by split <;> simp
  rw [contains, hvalue, Nat.zero_mul]
  split <;> simp only [Bool.and_eq_false_iff, decide_eq_false_iff_not, Nat.not_le, Nat.not_lt] <;> omega

theorem Interval.onGrid?_ne_zero {i : Interval} (h : 0 < i.low) {e : Int} {c : Nat}
    (hc : i.onGrid? e = some c) : c ≠ 0 := by
  rintro rfl
  have hzero := not_contains_zero h e
  rw [onGrid?] at hc
  generalize i.neighbours e = r at hc
  obtain ⟨c, side⟩ := r
  dsimp only at hc
  split at hc
  · rename_i hlow _
    have hne : c ≠ 0 := by
      rintro rfl
      rw [hzero] at hlow
      cases hlow
    split at hc
    · exact hne (Option.some.inj hc)
    · cases hc
    · split at hc
      · exact hne (Option.some.inj hc)
      · cases hc
  · rename_i hlow _
    cases hc
    rw [hzero] at hlow
    cases hlow
  · cases hc
  · cases hc

/-- A grid on which the number is at least one step. -/
theorem Interval.neighbours_ne_zero {i : Interval} (hden : 0 < i.den) {e : Int}
    (h : if e < 0 then i.den ≤ i.value * 10 ^ (-e).toNat else i.den * 10 ^ e.toNat ≤ i.value) :
    (i.neighbours e).1 ≠ 0 := by
  rw [neighbours]
  dsimp only
  by_cases he : e < 0
  · rw [if_pos he] at h ⊢
    rw [if_pos he]
    exact Nat.ne_of_gt (Nat.div_pos h hden)
  · rw [if_neg he] at h ⊢
    rw [if_neg he]
    exact Nat.ne_of_gt (Nat.div_pos h (Nat.mul_pos hden (Nat.pow_pos (by decide))))

theorem pow_le_of_digits {n : Nat} (hn : 0 < n) : 10 ^ ((Nat.toDigits 10 n).length - 1) ≤ n := by
  have hlength : (Nat.toDigits 10 n).length = n.repr.length := by
    rw [← String.length_toList, Nat.toList_repr]
  rw [hlength]
  rcases Nat.eq_zero_or_pos (n.repr.length - 1) with h | h
  · rw [h]
    exact hn
  · by_contra hlt
    have := (Nat.length_repr_le_iff h).mpr (Nat.lt_of_not_le hlt)
    omega

/-- The leading digit of a number is not beyond the finest grid. -/
theorem neighbours_leadingExponent {i : Interval} (hden : 0 < i.den) (hsmall : i.den ≤ i.value * 10 ^ 416) :
    (i.neighbours (leadingExponent i.value i.den - 16)).1 ≠ 0 := by
  have hfine : ∀ {m n : Nat}, m ≤ n → i.den ≤ i.value * 10 ^ m → i.den ≤ i.value * 10 ^ n := fun hmn h =>
    Nat.le_trans h (Nat.mul_le_mul_left _ (Nat.pow_le_pow_right (by decide) hmn))
  apply Interval.neighbours_ne_zero hden
  rw [leadingExponent]
  split
  · rename_i hle
    have hpow := pow_le_of_digits (Nat.div_pos hle hden)
    generalize hk : (Nat.toDigits 10 (i.value / i.den)).length = k at hpow
    split
    · exact hfine (Nat.zero_le _) (by simpa using hle)
    · have hcoarse : 10 ^ ((k : Int) - 1 - 16).toNat ≤ i.value / i.den :=
        Nat.le_trans (Nat.pow_le_pow_right (by decide) (by omega)) hpow
      exact Nat.le_trans (Nat.mul_le_mul_left _ hcoarse) (Nat.mul_div_le _ _)
  · split
    · rename_i k hk
      have hle : i.den ≤ i.value * 10 ^ (k + 1) := by simpa using List.find?_some hk
      rw [if_pos (by omega)]
      exact hfine (by omega) hle
    · rw [if_pos (by decide)]
      exact hfine (by decide) hsmall

theorem Binary.den_le {k : Nat} (hm : b.m ≠ 0) (hk : (2 - b.q).toNat ≤ 3 * k) :
    b.interval.den ≤ b.interval.value * 10 ^ k := by
  have hpow : Nat.pow 2 (2 - b.q).toNat ≤ 10 ^ k :=
    calc Nat.pow 2 (2 - b.q).toNat
      _ ≤ 2 ^ (3 * k) := Nat.pow_le_pow_right (by decide) hk
      _ = (2 ^ 3) ^ k := Nat.pow_mul 2 3 k
      _ ≤ 10 ^ k := Nat.pow_le_pow_left (by decide) k
  have hden : b.interval.den ≤ 10 ^ k := by
    rw [interval]
    dsimp only
    split
    · exact hpow
    · exact Nat.one_le_pow k 10 (by decide)
  exact Nat.le_trans hden (Nat.le_mul_of_pos_left _ (interval_pos hm).2.1)

theorem shortest_digits (hm : b.m ≠ 0) (hq : -1074 ≤ b.q) :
    (shortest b).digits ≠ [] ∧ ∀ d ∈ (shortest b).digits, d.isDigit = true := by
  obtain ⟨hlow, -, hden⟩ := Binary.interval_pos hm
  have hexponent : (2 - b.q).toNat ≤ 3 * 416 := by omega
  rw [shortest]
  dsimp only
  generalize hfound : List.findSome? _ (List.range 17) = found
  cases found with
  | none =>
    exact Digits.ofScaled_digits (neighbours_leadingExponent hden (Binary.den_le (k := 416) hm hexponent)) _
  | some d =>
    obtain ⟨n, -, hn⟩ := List.exists_of_findSome?_eq_some hfound
    obtain ⟨c, hc, rfl⟩ := Option.map_eq_some_iff.mp hn
    exact Digits.ofScaled_digits (Interval.onGrid?_ne_zero hlow hc) _

/-! ## Texts of decimals -/

/-- Digits, digits behind a point, and an exponent with its sign. -/
structure Parts where
  front : List Char
  back : List Char
  exponent : List Char

namespace Parts

def mantissa (p : Parts) : List Char := p.front ++ (if p.back = [] then [] else '.' :: p.back)

def chars (p : Parts) : List Char := p.mantissa ++ (if p.exponent = [] then [] else 'e' :: p.exponent)

structure Valid (p : Parts) : Prop where
  ne_nil : p.front ≠ []
  front : ∀ c ∈ p.front, c.isDigit = true
  back : ∀ c ∈ p.back, c.isDigit = true
  exponent : p.exponent = [] ∨ ∃ sign ds, p.exponent = sign :: ds ∧ (sign = '+' ∨ sign = '-') ∧
    ds ≠ [] ∧ ∀ c ∈ ds, c.isDigit = true

end Parts

theorem renderExponent_parts (x : Int) : ∃ sign ds, (renderExponent x).toList = sign :: ds ∧
    (sign = '+' ∨ sign = '-') ∧ ds ≠ [] ∧ ∀ c ∈ ds, c.isDigit = true := by
  have hdigits := isDigit_toDigits x.natAbs
  refine ⟨if x < 0 then '-' else '+', (if x.natAbs.repr.length < 2 then ['0'] else []) ++
    Nat.toDigits 10 x.natAbs, ?_, ?_, by simp [Nat.toDigits_ne_nil], ?_⟩
  · simp only [renderExponent, Nat.toString_eq_repr, String.toList_append, Nat.toList_repr]
    split <;> split <;> simp
  · split <;> simp
  · intro c hc
    rcases List.mem_append.mp hc with hc | hc
    · split at hc
      · rw [List.mem_singleton.mp hc]; rfl
      · cases hc
    · exact hdigits c hc

theorem Digits.render_parts {d : Digits} (hne : d.digits ≠ []) (hd : ∀ c ∈ d.digits, c.isDigit = true) :
    ∃ p : Parts, p.Valid ∧ d.render.toList = p.chars := by
  have htake : ∀ n, ∀ c ∈ d.digits.take n, c.isDigit = true := fun n c hc => hd c (List.mem_of_mem_take hc)
  have hdrop : ∀ n, ∀ c ∈ d.digits.drop n, c.isDigit = true := fun n c hc => hd c (List.mem_of_mem_drop hc)
  have hzeros : ∀ n, ∀ c ∈ List.replicate n '0', c.isDigit = true := fun n c hc => by
    rw [List.eq_of_mem_replicate hc]
    rfl
  rw [render]
  dsimp only
  split
  · obtain ⟨sign, ds, hexp, hsign, hds, hdigits⟩ := renderExponent_parts d.exponent
    refine ⟨⟨d.digits.take 1, d.digits.drop 1, sign :: ds⟩,
      ⟨?_, htake 1, hdrop 1, .inr ⟨sign, ds, rfl, hsign, hds, hdigits⟩⟩, ?_⟩
    · simp [hne]
    · simp [Parts.chars, Parts.mantissa, hexp]
      split <;> simp_all
  split
  · refine ⟨⟨['0'], List.replicate (-d.exponent - 1).toNat '0' ++ d.digits, []⟩,
      ⟨by simp, hzeros 1, List.forall_mem_append.mpr ⟨hzeros _, hd⟩, .inl rfl⟩, ?_⟩
    simp [Parts.chars, Parts.mantissa, hne]
  · refine ⟨⟨d.digits.take (d.exponent.toNat + 1) ++
        List.replicate (d.exponent.toNat + 1 - d.digits.length) '0', d.digits.drop (d.exponent.toNat + 1), []⟩,
      ⟨by simp [hne], List.forall_mem_append.mpr ⟨htake _, hzeros _⟩, hdrop _, .inl rfl⟩, ?_⟩
    simp [Parts.chars, Parts.mantissa]
    split <;> simp_all

/-! ## Literals of type double -/

namespace Parts

variable {p : Parts}

theorem Valid.goes_on (h : p.Valid) : ∀ c ∈ p.mantissa, Token.isNameChar c = true ∨ c = '.' := by
  intro c hc
  rcases List.mem_append.mp hc with hc | hc
  · exact .inl (C.isNameChar_of_isDigit (h.front c hc))
  split at hc
  · cases hc
  · exact (List.mem_cons.mp hc).symm.imp_left fun hc => C.isNameChar_of_isDigit (h.back c hc)

theorem Valid.reverse_mantissa (h : p.Valid) : ∃ d tail, p.mantissa.reverse = d :: tail ∧ d.isDigit = true := by
  rw [mantissa]
  split
  · have hfront := C.reverse_digits h.ne_nil h.front []
    rwa [List.nil_append, ← List.append_nil p.front] at hfront
  · rename_i hback
    rw [List.append_cons]
    exact C.reverse_digits hback h.back _

theorem numberTail_sign {sign : Char} (h : sign = '+' ∨ sign = '-') (tail rest : List Char) :
    Token.numberTail ('e' :: tail) (sign :: rest) = Token.numberTail (sign :: 'e' :: tail) rest := by
  rcases h with rfl | rfl <;> rfl

/-- The last character is a digit, and no sign is taken for an operator. -/
theorem Valid.isNumeral (h : p.Valid) {w : String} (hw : w.toList = p.chars) : C.IsNumeral w := by
  obtain ⟨c, cs, hcs⟩ : ∃ c cs, p.mantissa = c :: cs := by
    obtain ⟨c, front, hfront⟩ := List.exists_cons_of_ne_nil h.ne_nil
    exact ⟨c, _, by rw [mantissa, hfront, List.cons_append]⟩
  have hc : c.isDigit = true := by
    obtain ⟨d, front, hfront⟩ := List.exists_cons_of_ne_nil h.ne_nil
    rw [mantissa, hfront, List.cons_append] at hcs
    cases hcs
    exact h.front c (hfront ▸ .head _)
  have hgoes := h.goes_on
  rw [hcs, List.forall_mem_cons] at hgoes
  rw [chars, hcs] at hw
  rcases h.exponent with hexp | ⟨sign, ds, hexp, hsign, hds, hdigits⟩
  · obtain ⟨d, tail, htail, hd⟩ := h.reverse_mantissa
    rw [hexp, if_pos rfl, List.append_nil] at hw
    rw [hcs] at htail
    refine .of_last hw hc hd htail fun rest => ?_
    rw [List.reverse_cons]
    exact C.numberTail_append hgoes.2 [c] rest
  · rw [hexp, if_neg (List.cons_ne_nil _ _), List.cons_append] at hw
    obtain ⟨d, tail, htail, hd⟩ := C.reverse_digits hds hdigits (c :: cs ++ ['e', sign])
    have hsplit : c :: (cs ++ 'e' :: sign :: ds) = c :: cs ++ ['e', sign] ++ ds := by simp
    refine .of_last hw hc hd (hsplit ▸ htail) fun rest => ?_
    calc Token.numberTail [c] (cs ++ 'e' :: sign :: ds ++ rest)
      _ = Token.numberTail [c] (cs ++ ('e' :: sign :: (ds ++ rest))) := by simp
      _ = Token.numberTail (cs.reverse ++ [c]) ('e' :: sign :: (ds ++ rest)) :=
          C.numberTail_append hgoes.2 [c] _
      _ = Token.numberTail ('e' :: (cs.reverse ++ [c])) (sign :: (ds ++ rest)) := rfl
      _ = Token.numberTail (sign :: 'e' :: (cs.reverse ++ [c])) (ds ++ rest) := numberTail_sign hsign _ _
      _ = Token.numberTail (ds.reverse ++ sign :: 'e' :: (cs.reverse ++ [c])) rest :=
          C.numberTail_append (fun e he => .inl (C.isNameChar_of_isDigit (hdigits e he))) _ _
      _ = Token.numberTail (c :: (cs ++ 'e' :: sign :: ds)).reverse rest := by simp

theorem takeWhile_digits {ds rest : List Char} (hd : ∀ c ∈ ds, c.isDigit = true)
    (hrest : ∀ c ∈ rest.head?, Compiler.Literal.isDigitOf 10 c = false) :
    (ds ++ rest).takeWhile (Compiler.Literal.isDigitOf 10) = ds := by
  rw [List.takeWhile_append_of_pos fun c hc => Compiler.Literal.isDigitOf_ten (hd c hc)]
  cases rest with
  | nil => rw [List.takeWhile_nil, List.append_nil]
  | cons c rest => rw [List.takeWhile_cons, hrest c rfl]; simp

theorem Valid.pointed (h : p.Valid) : Compiler.Literal.pointed 10 p.chars =
    (p.front, p.back, if p.exponent = [] then [] else 'e' :: p.exponent) := by
  have hexp : ∀ c ∈ (if p.exponent = [] then [] else 'e' :: p.exponent).head?,
      Compiler.Literal.isDigitOf 10 c = false := by
    intro c hc
    split at hc <;> cases hc
    rfl
  rw [Compiler.Literal.pointed, chars, mantissa]
  by_cases hback : p.back = []
  · rw [hback, if_pos rfl, List.append_nil, takeWhile_digits h.front hexp, List.drop_left]
    by_cases hnone : p.exponent = []
    · rw [if_pos hnone]
    · rw [if_neg hnone]
      rfl
  · rw [if_neg hback, List.append_assoc, List.cons_append,
      takeWhile_digits h.front (fun c hc => by cases hc; rfl), List.drop_left]
    simp only [takeWhile_digits h.back hexp, List.drop_left]

theorem Valid.not_mem (h : p.Valid) {x : Char} (hx : x = 'x' ∨ x = 'X') : x ∉ p.chars := by
  have hdigit : x.isDigit = false := by rcases hx with rfl | rfl <;> rfl
  have hdigits : ∀ {ds : List Char}, (∀ c ∈ ds, c.isDigit = true) → x ∉ ds := fun hds hmem => by
    rw [hds x hmem] at hdigit
    cases hdigit
  have hmarks : x ∉ ['.', 'e', '+', '-'] := by rcases hx with rfl | rfl <;> decide
  simp only [List.mem_cons, List.not_mem_nil, or_false, not_or] at hmarks
  have hmantissa : x ∉ p.mantissa := by
    rw [mantissa]
    split <;> simp [hdigits h.front, hdigits h.back, hmarks]
  rcases h.exponent with hexp | ⟨sign, ds, hexp, hsign, -, hds⟩
  · simp [chars, hexp, hmantissa]
  · rcases hsign with rfl | rfl <;> simp [chars, hexp, hmantissa, hdigits hds, hmarks]

theorem Valid.fraction?_eq (h : p.Valid) {w : String} (hw : w.toList = p.chars) :
    Compiler.Literal.fraction? w = Compiler.Literal.fraction?.decimal p.chars := by
  rw [Compiler.Literal.fraction?, hw]
  split
  · rename_i x cs hcs
    have hx : ¬ ((x == 'x' || x == 'X') = true) := by
      rw [Bool.or_eq_true, beq_iff_eq, beq_iff_eq]
      exact fun hx => h.not_mem hx (by rw [hcs]; simp)
    rw [if_neg hx, hcs]
  · rfl

theorem Valid.isDouble (h : p.Valid) (hreal : p.back ≠ [] ∨ p.exponent ≠ []) {w : String}
    (hw : w.toList = p.chars) : C.isDouble w = true := by
  have hfront : p.front.isEmpty = false := List.isEmpty_eq_false_iff.mpr h.ne_nil
  rw [C.isDouble, h.fraction?_eq hw, Compiler.Literal.fraction?.decimal, h.pointed]
  simp only [hfront, Bool.false_and, Bool.false_eq_true, if_false]
  rcases h.exponent with hexp | ⟨sign, ds, hexp, hsign, hds, hdigits⟩
  · have hpoint : '.' ∈ p.chars := by
      simp [chars, mantissa, hexp, hreal.resolve_right (· hexp)]
    simp [hexp, hpoint]
  · have hall : ds.all Char.isDigit = true := List.all_eq_true.mpr hdigits
    have htake : ds.takeWhile Char.isDigit = ds := List.takeWhile_eq_self_iff.mpr hdigits
    have hdrop : ds.dropWhile Char.isDigit = [] := List.dropWhile_eq_nil_iff.mpr hdigits
    have hempty : ds.isEmpty = false := List.isEmpty_eq_false_iff.mpr hds
    have hletters : Compiler.Literal.fractionSuffix? [] = some .double := rfl
    rcases hsign with rfl | rfl <;>
      simp [hexp, Compiler.Literal.splitExponent, Compiler.Literal.exponent?, htake, hdrop, hall, hempty,
        hletters]

/-- A number with neither a point nor an exponent is a whole one. -/
theorem any_chars (p : Parts) :
    (p.chars.any fun c => c == '.' || c == 'e') = true → p.Valid → p.back ≠ [] ∨ p.exponent ≠ [] := by
  intro hany hp
  by_contra hnone
  simp only [not_or, not_not] at hnone
  have hchars : p.chars = p.front := by simp [chars, mantissa, hnone]
  rw [hchars, List.any_eq_true] at hany
  obtain ⟨c, hc, hmark⟩ := hany
  have hdigit := hp.front c hc
  simp only [Bool.or_eq_true, beq_iff_eq] at hmark
  rcases hmark with rfl | rfl <;> cases hdigit

end Parts

theorem Binary.ofBits_exponent (bits : UInt64) : -1074 ≤ (Binary.ofBits bits).q := by
  rw [ofBits]
  split
  · exact Int.le_refl _
  · dsimp only
    omega

theorem render_parts {v : Float} (hnan : v.isNaN = false) (hinf : v.isInf = false) :
    ∃ (p : Parts) (sign : String), p.Valid ∧ (sign = "" ∨ sign = "-") ∧
      (render v).toList = sign.toList ++ p.chars := by
  have hbody : ∃ p : Parts, p.Valid ∧ (if (Binary.ofBits v.toBits).m = 0 then "0"
      else (shortest (Binary.ofBits v.toBits)).render).toList = p.chars := by
    split
    · exact ⟨⟨['0'], [], []⟩, ⟨List.cons_ne_nil _ _, List.forall_mem_singleton.mpr rfl, nofun, .inl rfl⟩, rfl⟩
    · rename_i hm
      obtain ⟨hne, hdigits⟩ := shortest_digits hm (Binary.ofBits_exponent _)
      exact Digits.render_parts hne hdigits
  obtain ⟨p, hp, hbody⟩ := hbody
  refine ⟨p, if Nat.pow 2 63 ≤ v.toBits.toNat then "-" else "", hp, by split <;> simp, ?_⟩
  rw [render, hnan, hinf]
  simp only [Bool.false_eq_true, if_false, String.toList_append, hbody]

end Decimal

namespace C

/-- The text of a finite number is one literal of type double, perhaps with a minus in front of it. -/
theorem literalDigits_spec {v : Float} (hnan : v.isNaN = false) (hinf : v.isInf = false) :
    ∃ w, (literalDigits v = w ∨ literalDigits v = "-" ++ w) ∧ IsNumeral w ∧ isDouble w = true := by
  obtain ⟨p, sign, hp, hsign, htext⟩ := Decimal.render_parts hnan hinf
  have hdigits : ∃ w, literalDigits v = sign ++ w ∧ IsNumeral w ∧ isDouble w = true := by
    have hmark : (sign.toList.any fun c => c == '.' || c == 'e') = false := by
      rcases hsign with rfl | rfl <;> rfl
    rw [literalDigits, htext, List.any_append, hmark, Bool.false_or]
    split
    · rename_i hany
      refine ⟨String.ofList p.chars, ?_, hp.isNumeral String.toList_ofList,
        hp.isDouble (p.any_chars hany hp) String.toList_ofList⟩
      rw [← String.toList_inj, htext, String.toList_append, String.toList_ofList]
    · rename_i hany
      have hwhole : ({ p with back := ['0'] } : Decimal.Parts).Valid :=
        ⟨hp.ne_nil, hp.front, List.forall_mem_singleton.mpr rfl, hp.exponent⟩
      have hplain : p.back = [] ∧ p.exponent = [] := by
        simp only [Decimal.Parts.chars, Decimal.Parts.mantissa] at hany
        constructor <;> (by_contra hne; simp [hne] at hany)
      refine ⟨String.ofList p.chars ++ ".0", ?_, hwhole.isNumeral ?_, hwhole.isDouble (.inl (by simp)) ?_⟩
      · rw [← String.toList_inj]
        simp [htext]
      all_goals simp [Decimal.Parts.chars, Decimal.Parts.mantissa, hplain]
  obtain ⟨w, hw, hnumeral, hdouble⟩ := hdigits
  refine ⟨w, ?_, hnumeral, hdouble⟩
  rcases hsign with rfl | rfl
  · exact .inl (hw.trans String.empty_append)
  · exact .inr hw

end C

end LoopNest
