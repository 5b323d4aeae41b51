import LoopNest.Data.Logarithm
import LoopNest.Proofs.Double

/-!
# The error of the decimal logarithm
-/

namespace LoopNest.Logarithm

open Double

/-! ## Real logarithms -/

/-- The series of odd powers for the logarithm of a quotient. -/
theorem abs_log_quotient_sub_le {s : ℝ} (h : |s| < 1) (n : Nat) :
    |Real.log ((1 + s) / (1 - s)) - ∑ i ∈ Finset.range n, 2 / (2 * i + 1) * s ^ (2 * i + 1)| ≤
      2 * (|s| ^ (2 * n + 1) / (1 - |s|)) := by
  obtain ⟨hlow, hhigh⟩ := abs_lt.mp h
  have hsum : ∀ n : Nat, ∑ i ∈ Finset.range n, 2 / (2 * i + 1) * s ^ (2 * i + 1) =
      ∑ i ∈ Finset.range (2 * n), s ^ (i + 1) / (i + 1) -
        ∑ i ∈ Finset.range (2 * n), (-s) ^ (i + 1) / (i + 1) := by
    intro n
    induction n with
    | zero => simp
    | succ n ih =>
      rw [Finset.sum_range_succ, ih, show 2 * (n + 1) = 2 * n + 1 + 1 by ring,
        Finset.sum_range_succ _ (2 * n + 1), Finset.sum_range_succ _ (2 * n),
        Finset.sum_range_succ _ (2 * n + 1), Finset.sum_range_succ _ (2 * n),
        Odd.neg_pow ⟨n, rfl⟩, Even.neg_pow ⟨n + 1, by ring⟩]
      push_cast
      ring
  have hplus := Real.abs_log_sub_add_sum_range_le h (2 * n)
  have hminus := Real.abs_log_sub_add_sum_range_le (abs_neg s ▸ h) (2 * n)
  rw [abs_neg, sub_neg_eq_add] at hminus
  rw [hsum, Real.log_div (by linarith) (by linarith), two_mul (|s| ^ _ / _)]
  refine le_trans (le_of_eq ?_) ((abs_sub _ _).trans (add_le_add hminus hplus))
  congr 1
  ring

/-- A logarithm that is near to a partial sum of its series, which is computed. -/
theorem abs_log_sub_le {s q c ε : ℚ} (n : Nat) (h : 0 ≤ s ∧ s < 1 ∧ (1 + s) / (1 - s) = q ∧
    |∑ i ∈ Finset.range n, 2 / (2 * i + 1) * s ^ (2 * i + 1) - c| +
      2 * (s ^ (2 * n + 1) / (1 - s)) ≤ ε) : |Real.log q - c| ≤ ε := by
  obtain ⟨hs0, hs1, hq, herr⟩ := h
  have hs : |(s : ℝ)| = s := abs_of_nonneg (Rat.cast_nonneg.mpr hs0)
  have hlog := abs_log_quotient_sub_le (s := (s : ℝ)) (by rw [hs]; exact_mod_cast hs1) n
  rw [hs, show (1 + (s : ℝ)) / (1 - s) = q by exact_mod_cast hq] at hlog
  have herr := (Rat.cast_le (K := ℝ)).mpr herr
  push_cast at herr
  linarith only [hlog, herr, abs_sub_le (Real.log q)
    (∑ i ∈ Finset.range n, 2 / (2 * i + 1) * (s : ℝ) ^ (2 * i + 1)) c]

theorem abs_log_two_sub_le : |Real.log 2 - 0.69314718055994530941| ≤ 1e-17 := by
  exact_mod_cast abs_log_sub_le (s := 1 / 3) (q := 2) (c := 0.69314718055994530941) (ε := 1e-17) 18
    (by with_unfolding_all decide)

theorem abs_log_ten_sub_le : |Real.log 10 - 2.302585092994045684| ≤ 1e-16 := by
  have hfive : |Real.log (5 / 4) - 0.22314355131420975577| ≤ 1e-17 := by
    have h := abs_log_sub_le (s := 1 / 9) (q := 5 / 4) (c := 0.22314355131420975577) (ε := 1e-17) 9
      (by with_unfolding_all decide)
    push_cast at h
    exact h
  have htwo := abs_log_two_sub_le
  have hten : Real.log 10 = 3 * Real.log 2 + Real.log (5 / 4) := by
    rw [← Real.log_rpow (by norm_num), ← Real.log_mul (by norm_num) (by norm_num)]
    norm_num
  rw [hten]
  rw [abs_le] at htwo hfive ⊢
  constructor <;> linarith

/-! ## Constants -/

/-- The number that a word with the bits of a positive normal number stands for. -/
def number (b : Nat) : ℚ := (2 ^ 52 + b % 2 ^ 52 : Nat) * 2 ^ ((b / 2 ^ 52 : Nat) - 1075 : Int)

/-- A constant is near to the number that its bits stand for. -/
theorem near_of_bits {x : Float} {α : ℝ} {A ε : ℚ} (b : Nat) (c : ℚ) (hα : (c : ℝ) = α)
    (h : x.toBits.toNat = b ∧ 2 ^ 52 ≤ b ∧ b < 2047 * 2 ^ 52 ∧ |c| ≤ A ∧ |number b - c| ≤ ε) :
    Near x α A ε := by
  obtain ⟨hx, hlow, hhigh, hsize, herr⟩ := h
  obtain ⟨_, hu⟩ := unpack_of_toBits hx hlow hhigh
  refine hα ▸ ⟨by exact_mod_cast hsize, _, value_of_positive hu, ?_⟩
  have herr := (Rat.cast_le (K := ℝ)).mpr herr
  rw [number] at herr
  push_cast at herr ⊢
  exact herr

theorem near_half : Near 0.5 (1 / 2) (1 / 2) 0 :=
  near_of_bits 0x3fe0000000000000 (1 / 2) (by norm_num) (by with_unfolding_all decide)

theorem near_one : Near 1 1 1 0 :=
  near_of_bits 0x3ff0000000000000 1 Rat.cast_one (by with_unfolding_all decide)

theorem near_two : Near 2 2 2 0 :=
  near_of_bits 0x4000000000000000 2 (by norm_num) (by with_unfolding_all decide)

/-- The number that `twoHigh` stands for. -/
def highPart : ℚ := 6243314766446592 / 2 ^ 53

theorem near_twoHigh : Near twoHigh highPart 0.6932 0 :=
  near_of_bits 0x3fe62e42fee00000 highPart rfl (by with_unfolding_all decide)

/-- The two parts of the logarithm of two make it up. -/
theorem near_twoLow : Near twoLow (Real.log 2 - highPart) 1.91e-10 2e-17 := by
  have h : Near twoLow _ 1.9082149292705878e-10 1e-25 :=
    near_of_bits 0x3dea39ef35793c76 1.9082149292705877e-10 rfl (by with_unfolding_all decide)
  refine h.trans (δ := 1.9e-17) ?_ (by with_unfolding_all decide)
  have hlog := abs_log_two_sub_le
  rw [highPart]
  rw [abs_le] at hlog ⊢
  push_cast
  constructor <;> linarith

theorem abs_sub_div_le {c a b ε : ℝ} (hb : 0 < b) (hlow : (c - ε) * b ≤ a)
    (hhigh : a ≤ (c + ε) * b) : |c - a / b| ≤ ε := by
  rw [← le_div_iff₀ hb] at hlow
  rw [← div_le_iff₀ hb] at hhigh
  exact abs_le.mpr ⟨by linarith, by linarith⟩

theorem near_binaryScale : Near binaryScale (1 / Real.log 2) 1.4427 2e-16 := by
  have h : Near binaryScale _ 1.4426951 1e-16 :=
    near_of_bits 0x3ff71547652b82fe 1.4426950408889634 rfl (by with_unfolding_all decide)
  have hlog := abs_le.mp abs_log_two_sub_le
  refine h.trans (δ := 1e-16) (abs_sub_div_le (Real.log_pos (by norm_num)) ?_ ?_)
    (by with_unfolding_all decide)
  · push_cast
    linarith
  · push_cast
    linarith

theorem near_decimalScale : Near decimalScale (Real.log 2 / Real.log 10) 0.3011 1e-16 := by
  have h : Near decimalScale _ 0.30103 5e-17 :=
    near_of_bits 0x3fd34413509f79ff 0.30102999566398120 rfl (by with_unfolding_all decide)
  have htwo := abs_le.mp abs_log_two_sub_le
  have hten := abs_le.mp abs_log_ten_sub_le
  refine h.trans (δ := 5e-17) (abs_sub_div_le (Real.log_pos (by norm_num)) ?_ ?_)
    (by with_unfolding_all decide)
  · push_cast
    linarith
  · push_cast
    linarith

/-! ## The polynomial -/

/-- The polynomial that is meant: the series without its first term. -/
noncomputable def tailSum (z : ℝ) : ℝ :=
  z * (2 / 3 + z * z * (2 / 7 + z * z * (2 / 11 + z * z * (2 / 15)))) +
    z * z * (2 / 5 + z * z * (2 / 9 + z * z * (2 / 13)))

theorem near_tail {x : Float} {z : ℝ} (hx : Near x z 0.0295 1e-15) :
    Near (tail x) (tailSum z) 0.0205 1.402e-12 := by
  have near_w : Near (x * x) (z * z) 8.71e-4 1e-16 := hx.mul hx (by with_unfolding_all decide)
  have near_l7 : Near 1.479819860511658591e-01 (2 / 15) (2 / 15) 1.5e-2 :=
    near_of_bits 0x3fc2f112df3e5244 (2 / 15) (by norm_num) (by with_unfolding_all decide)
  have near_l6 : Near 1.531383769920937332e-01 (2 / 13) (2 / 13) 7.1e-4 :=
    near_of_bits 0x3fc39a09d078c69f (2 / 13) (by norm_num) (by with_unfolding_all decide)
  have near_l5 : Near 1.818357216161805012e-01 (2 / 11) (2 / 11) 1.76e-5 :=
    near_of_bits 0x3fc7466496cb03de (2 / 11) (by norm_num) (by with_unfolding_all decide)
  have near_l4 : Near 2.222219843214978396e-01 (2 / 9) (2 / 9) 2.38e-7 :=
    near_of_bits 0x3fcc71c51d8e78af (2 / 9) (by norm_num) (by with_unfolding_all decide)
  have near_l3 : Near 2.857142874366239149e-01 (2 / 7) (2 / 7) 1.73e-9 :=
    near_of_bits 0x3fd2492494229359 (2 / 7) (by norm_num) (by with_unfolding_all decide)
  have near_l2 : Near 3.999999999940941908e-01 (2 / 5) (2 / 5) 5.92e-12 :=
    near_of_bits 0x3fd999999997fa04 (2 / 5) (by norm_num) (by with_unfolding_all decide)
  have near_l1 : Near 6.666666666666735130e-01 (2 / 3) (2 / 3) 7e-15 :=
    near_of_bits 0x3fe5555555555593 (2 / 3) (by norm_num) (by with_unfolding_all decide)
  have near_p5 := near_l5.add
    (near_w.mul near_l7 (show Rounds _ _ 1.17e-4 1.308e-5 by with_unfolding_all decide))
    (show Rounds _ _ 0.182 3.07e-5 by with_unfolding_all decide)
  have near_p3 := near_l3.add
    (near_w.mul near_p5 (show Rounds _ _ 1.59e-4 2.68e-8 by with_unfolding_all decide))
    (show Rounds _ _ 0.2859 2.86e-8 by with_unfolding_all decide)
  have near_p1 := near_l1.add
    (near_w.mul near_p3 (show Rounds _ _ 2.5e-4 2.50e-11 by with_unfolding_all decide))
    (show Rounds _ _ 0.667 2.51e-11 by with_unfolding_all decide)
  have near_p4 := near_l4.add
    (near_w.mul near_l6 (show Rounds _ _ 1.35e-4 6.19e-7 by with_unfolding_all decide))
    (show Rounds _ _ 0.2224 8.58e-7 by with_unfolding_all decide)
  have near_p2 := near_l2.add
    (near_w.mul near_p4 (show Rounds _ _ 1.94e-4 7.48e-10 by with_unfolding_all decide))
    (show Rounds _ _ 0.4002 7.55e-10 by with_unfolding_all decide)
  exact (hx.mul near_p1 (show Rounds _ _ 0.0197 7.42e-13 by with_unfolding_all decide)).add
    (near_w.mul near_p2 (show Rounds _ _ 3.5e-4 6.58e-13 by with_unfolding_all decide))
    (by with_unfolding_all decide)

/-! ## The logarithm of a number near one -/

/-- The polynomial is the logarithm of a quotient up to the tenth term of its series. -/
theorem abs_tailSum_sub_le {s : ℝ} (hs : |s| ≤ 0.1717) :
    |2 * s + s * tailSum (s * s) - Real.log ((1 + s) / (1 - s))| ≤ 1.9e-14 := by
  have h := abs_log_quotient_sub_le (lt_of_le_of_lt hs (by norm_num)) 9
  have hseries : ∑ i ∈ Finset.range 9, 2 / (2 * i + 1) * s ^ (2 * i + 1) =
      2 * s + s * tailSum (s * s) + 2 / 17 * s ^ 17 := by
    norm_num [Finset.sum_range_succ, tailSum]
    ring
  have hlast : |2 / 17 * s ^ 17| ≤ 2 / 17 * 0.1717 ^ 17 := by
    rw [abs_mul, abs_pow, abs_of_pos (by norm_num : (0 : ℝ) < 2 / 17)]
    gcongr
  have hrest : 2 * (|s| ^ (2 * 9 + 1) / (1 - |s|)) ≤ 2 * (0.1717 ^ 19 / (1 - 0.1717)) := by
    have hpos : (0 : ℝ) < 1 - 0.1717 := by norm_num
    gcongr
  have hrat : 2 * (0.1717 ^ 19 / (1 - 0.1717)) + 2 / 17 * 0.1717 ^ 17 ≤ (1.9e-14 : ℚ) := by
    with_unfolding_all decide
  have hsum := (Rat.cast_le (K := ℝ)).mpr hrat
  push_cast at hsum
  rw [hseries] at h
  calc |2 * s + s * tailSum (s * s) - Real.log ((1 + s) / (1 - s))|
      = |(Real.log ((1 + s) / (1 - s)) - (2 * s + s * tailSum (s * s) + 2 / 17 * s ^ 17)) +
          2 / 17 * s ^ 17| := by rw [← abs_neg]; congr 1; ring
    _ ≤ 2 * (0.1717 ^ 19 / (1 - 0.1717)) + 2 / 17 * 0.1717 ^ 17 :=
        (abs_add_le _ _).trans (add_le_add (h.trans hrest) hlast)
    _ ≤ 1.9e-14 := hsum

theorem near_quotient {x : Float} {f : ℝ} (hx : Near x f 0.4143 1e-15) (hlow : -0.2929 ≤ f) :
    Near (x / (2 + x)) (f / (2 + f)) 0.1717 2e-15 := by
  have hhigh := (abs_le.mp hx.size).2
  push_cast at hhigh
  have near_sum : Near (2 + x) (2 + f) 2.4143 2e-15 :=
    Near.add near_two hx (by with_unfolding_all decide)
  have near_s : Near (x / (2 + x)) (f / (2 + f)) 0.4143 2e-15 :=
    hx.div near_sum (by push_cast; linarith) (by with_unfolding_all decide)
  refine ⟨?_, near_s.error⟩
  rw [abs_le, le_div_iff₀ (by linarith), div_le_iff₀ (by linarith)]
  push_cast
  constructor <;> linarith

/-- The product with `s` and the low part of the logarithm of two. -/
theorem near_correction {s h r k : Float} {σ η τ κ : ℝ} (hs : Near s σ 0.1717 2e-15)
    (hh : Near h η 0.0859 5e-16) (hr : Near r τ 0.0205 1.402e-12) (hk : Near k κ 1 0) :
    Near (s * (h + r) + k * twoLow) (σ * (η + τ) + κ * (Real.log 2 - highPart)) 0.0184 2.416e-13 :=
  have near_sum : Near (h + r) (η + τ) 0.1064 1.403e-12 := hh.add hr (by with_unfolding_all decide)
  (hs.mul near_sum (show Rounds _ _ 0.0183 2.412e-13 by with_unfolding_all decide)).add
    (hk.mul near_twoLow (show Rounds _ _ 1.92e-10 2.1e-17 by with_unfolding_all decide))
    (by with_unfolding_all decide)

/-- The number that a correction is taken from, and the high part of the logarithm of two. -/
theorem near_corrected {f h c k : Float} {φ η γ κ : ℝ} (hf : Near f φ 0.4143 1e-15)
    (hh : Near h η 0.0859 5e-16) (hc : Near c γ 0.0184 2.416e-13) (hk : Near k κ 1 0) :
    Near (k * twoHigh - ((h - c) - f)) (κ * highPart - ((η - γ) - φ)) 1.22 2.45e-13 :=
  have near_rest : Near (h - c) (η - γ) 0.1043 2.422e-13 := hh.sub hc (by with_unfolding_all decide)
  have near_difference : Near (h - c - f) (η - γ - φ) 0.5186 2.434e-13 :=
    near_rest.sub hf (by with_unfolding_all decide)
  have near_product : Near (k * twoHigh) (κ * highPart) 0.6932 2e-16 :=
    hk.mul near_twoHigh (by with_unfolding_all decide)
  near_product.sub near_difference (by with_unfolding_all decide)

theorem near_nearOne {x y : Float} {f k : ℝ} (hx : Near x f 0.4143 1e-15) (hlow : -0.2929 ≤ f)
    (hy : Near y k 1 0) :
    Near (nearOne x y) (k * Real.log 2 + Real.log (1 + f)) 1.23 2.64e-13 := by
  have near_s := near_quotient hx hlow
  have near_half_x : Near (0.5 * x) (1 / 2 * f) 0.2072 6e-16 :=
    Near.mul near_half hx (by with_unfolding_all decide)
  have near_h : Near (0.5 * x * x) (1 / 2 * f * f) 0.0859 5e-16 :=
    near_half_x.mul hx (by with_unfolding_all decide)
  have near_r := near_tail (near_s.mul near_s (by with_unfolding_all decide))
  have near_c := near_correction near_s near_h near_r hy
  refine (near_corrected hx near_h near_c hy).trans (δ := 1.9e-14) ?_ (by with_unfolding_all decide)
  have hseries := abs_tailSum_sub_le (by exact_mod_cast near_s.size)
  have hpos : 0 < 2 + f := by linarith
  have hquotient : (1 + f / (2 + f)) / (1 - f / (2 + f)) = 1 + f := by
    field_simp
    ring
  have hhalf : f - 1 / 2 * f * f + f / (2 + f) * (1 / 2 * f * f) = 2 * (f / (2 + f)) := by
    field_simp
    ring
  rw [hquotient] at hseries
  generalize f / (2 + f) = s at hseries hhalf ⊢
  push_cast
  convert hseries using 2
  linear_combination hhalf

/-! ## Splitting -/

/-- The fraction of a number has its mantissa. -/
theorem split_spec {x : Float} {m : Nat} {e : Int} {hm : 0 < m}
    (hx : x.toModel.unpack = .finite .positive m e hm) (hnormal : 2 ^ 52 ≤ m) :
    (∃ h, (split x).1.toModel.unpack = .finite .positive m (-53) h) ∧ (split x).2 = e + 53 := by
  obtain ⟨hmantissa, hexponent⟩ := bits_of_unpack hx hnormal
  have hnat : (UInt64.ofNat (x.toBits.toNat % 0x10000000000000 + 0x3fe0000000000000)).toNat =
      x.toBits.toNat % 0x10000000000000 + 0x3fe0000000000000 := by
    rw [UInt64.toNat_ofNat']
    omega
  obtain ⟨h, hfraction⟩ := unpack_ofBits hnat (by omega) (by omega)
  refine ⟨⟨hm, ?_⟩, ?_⟩
  · rw [split]
    exact hfraction.trans (finite_congr (by omega) (by omega) _ _)
  · rw [split]
    dsimp only
    omega

theorem value_ofInt {k : Int} (h : k.natAbs < 2 ^ 53) : Value (ofInt k).toModel.unpack k := by
  have hvalue := value_toFloat h
  rw [ofInt]
  split
  · have hcast : (k : ℝ) = -k.natAbs := by
      rw [Nat.cast_natAbs, abs_of_neg (by assumption)]
      push_cast
      ring
    exact hcast ▸ hvalue.neg
  · have hcast : (k : ℝ) = k.natAbs := by
      rw [Nat.cast_natAbs, abs_of_nonneg (by omega)]
    exact hcast ▸ hvalue

theorem fraction_bounds {m : Nat} (hnormal : 2 ^ 52 ≤ m) (hlt : m < 2 ^ 53) :
    1 / 2 ≤ (m : ℝ) * 2 ^ (-53 : Int) ∧ (m : ℝ) * 2 ^ (-53 : Int) < 1 := by
  have hcast : (2 : ℝ) ^ 52 ≤ m ∧ (m : ℝ) < 2 ^ 53 := by exact_mod_cast And.intro hnormal hlt
  rw [zpow_neg, zpow_ofNat, ← div_eq_mul_inv, le_div_iff₀ (by positivity),
    div_lt_one (by positivity)]
  exact ⟨le_trans (by norm_num) hcast.1, hcast.2⟩

theorem lt_halfRoot_iff {x : Float} {m : Nat} {hm : 0 < m}
    (hx : x.toModel.unpack = .finite .positive m (-53) hm) :
    x < halfRoot ↔ (m : ℝ) * 2 ^ (-53 : Int) < (6369051672525773 / 2 ^ 53 : ℚ) := by
  have hbits : halfRoot.toBits.toNat = 0x3fe6a09e667f3bcd := by with_unfolding_all decide
  obtain ⟨_, hroot⟩ := unpack_of_toBits hbits (by decide) (by decide)
  have hroot : halfRoot.toModel.unpack = .finite .positive 6369051672525773 (-53) (by decide) :=
    hroot.trans (finite_congr (by decide) (by decide) _ _)
  rw [lt_iff hx hroot, zpow_neg, zpow_ofNat, ← div_eq_mul_inv]
  push_cast
  rw [div_lt_div_iff_of_pos_right (by positivity)]
  exact_mod_cast Iff.rfl

/-- The natural logarithm of a fraction from a half to one. -/
theorem near_natural {x : Float} {m : Nat} {hm : 0 < m}
    (hx : x.toModel.unpack = .finite .positive m (-53) hm) (hnormal : 2 ^ 52 ≤ m)
    (hlt : m < 2 ^ 53) : Near (natural x) (Real.log (m * 2 ^ (-53 : Int))) 1.23 2.64e-13 := by
  obtain ⟨⟨_, hfraction⟩, hexponent⟩ := split_spec hx hnormal
  obtain ⟨hlow, hhigh⟩ := fraction_bounds hnormal hlt
  have near_fraction : Near (split x).1 (m * 2 ^ (-53 : Int)) 1 0 :=
    (value_of_positive hfraction).near (by
      rw [abs_of_nonneg (by positivity), Rat.cast_one]
      exact hhigh.le)
  have hroot := lt_halfRoot_iff hfraction
  rw [natural]
  generalize split x = fk at hexponent hroot near_fraction ⊢
  obtain ⟨f, k⟩ := fk
  obtain rfl : k = 0 := hexponent
  dsimp only at hroot near_fraction ⊢
  generalize (m : ℝ) * 2 ^ (-53 : Int) = q at hlow hhigh hroot near_fraction ⊢
  by_cases hless : f < halfRoot
  · have hq := hroot.mp hless
    push_cast at hq
    rw [if_pos hless]
    have near_small : Near f q 0.7072 0 :=
      ⟨abs_le.mpr ⟨by push_cast; linarith, by push_cast; linarith⟩, near_fraction.error⟩
    have near_double : Near (2 * f) (2 * q) 1.415 4e-16 :=
      Near.mul near_two near_small (by with_unfolding_all decide)
    have near_f : Near (2 * f - 1) (2 * q - 1) 2.415 1e-15 :=
      near_double.sub near_one (by with_unfolding_all decide)
    have hsize : |2 * q - 1| ≤ (0.4143 : ℚ) :=
      abs_le.mpr ⟨by push_cast; linarith, by push_cast; linarith⟩
    have near_k := (@value_ofInt (0 - 1) (by decide)).near (A := 1) (by norm_num)
    convert near_nearOne ⟨hsize, near_f.error⟩ (by linarith) near_k using 1
    rw [show 1 + (2 * q - 1) = 2 * q by ring, Real.log_mul (by norm_num) (by linarith)]
    push_cast
    ring
  · have hq := mt hroot.mpr hless
    push_cast at hq
    rw [if_neg hless]
    have near_f : Near (f - 1) (q - 1) 2 1e-15 :=
      near_fraction.sub near_one (by with_unfolding_all decide)
    have hsize : |q - 1| ≤ (0.4143 : ℚ) :=
      abs_le.mpr ⟨by push_cast; linarith, by push_cast; linarith⟩
    have near_k := (@value_ofInt 0 (by decide)).near (A := 1) (by norm_num)
    convert near_nearOne ⟨hsize, near_f.error⟩ (by linarith) near_k using 1
    rw [Int.cast_zero, zero_mul, zero_add, add_sub_cancel]

/-- The exponents of the numbers from one on. -/
theorem exponent_bounds {m : Nat} {e : Int} (hnormal : 2 ^ 52 ≤ m) (hlt : m < 2 ^ 53)
    (h1 : 1 ≤ (m : ℝ) * 2 ^ e) (hq : (m : ℝ) * 2 ^ e ≤ 2 ^ 44) : 1 ≤ e + 53 ∧ e + 53 ≤ 45 := by
  have hcast : (2 : ℝ) ^ (52 : Int) ≤ m ∧ (m : ℝ) < 2 ^ (53 : Int) := by
    exact_mod_cast And.intro hnormal hlt
  have hpos : (0 : ℝ) < 2 ^ e := by positivity
  have hlow : (2 : ℝ) ^ (0 : Int) < 2 ^ (53 + e) := by
    rw [zpow_zero, zpow_add₀ two_ne_zero]
    exact h1.trans_lt (mul_lt_mul_of_pos_right hcast.2 hpos)
  have hhigh : (2 : ℝ) ^ (52 + e) ≤ 2 ^ (44 : Int) := by
    rw [zpow_add₀ two_ne_zero]
    exact (mul_le_mul_of_nonneg_right hcast.1 hpos.le).trans (by exact_mod_cast hq)
  rw [zpow_lt_zpow_iff_right₀ one_lt_two] at hlow
  rw [zpow_le_zpow_iff_right₀ one_lt_two] at hhigh
  omega

theorem log_two_pos : 0 < Real.log 2 := Real.log_pos one_lt_two

/-- The logarithm to base two of a mantissa times a power of two. -/
theorem log_div_log_two {m : Nat} (hm : 0 < m) (e : Int) : Real.log (m * 2 ^ e) / Real.log 2 =
    Real.log (m * 2 ^ (-53 : Int)) * (1 / Real.log 2) + (e + 53 : Int) := by
  have hlog := ne_of_gt log_two_pos
  have hm : (m : ℝ) ≠ 0 := by exact_mod_cast hm.ne'
  rw [Real.log_mul hm (by positivity), Real.log_mul hm (by positivity), Real.log_zpow,
    Real.log_zpow]
  field_simp
  push_cast
  ring

/-- The logarithm to base two of a number from one on. -/
theorem near_binary {x : Float} {q : ℝ} (hx : Value x.toModel.unpack q) (h1 : 1 ≤ q)
    (hq : q ≤ 2 ^ 44) : Near (binary x) (Real.log q / Real.log 2) 47 3.93e-13 := by
  obtain ⟨m, e, hm, hu, hnormal, hlt, rfl⟩ := unpack_of_one_le hx h1
  obtain ⟨⟨_, hfraction⟩, hexponent⟩ := split_spec hu hnormal
  have hbits : (0.5 : Float).toBits.toNat = 0x3fe0000000000000 := by with_unfolding_all decide
  obtain ⟨_, hhalf⟩ := unpack_of_toBits hbits (by decide) (by decide)
  have hhalf : (0.5 : Float).toModel.unpack = .finite .positive (2 ^ 52) (-53) (by decide) :=
    hhalf.trans (finite_congr (by decide) (by decide) _ _)
  have hpower := beq_iff hfraction hhalf
  obtain ⟨hk1, hk45⟩ := exponent_bounds hnormal hlt h1 hq
  have near_log := near_natural hfraction hnormal hlt
  rw [binary, log_div_log_two hm]
  generalize split x = fk at hexponent hpower near_log ⊢
  obtain ⟨f, k⟩ := fk
  obtain rfl : k = e + 53 := hexponent
  dsimp only at hpower near_log ⊢
  by_cases hless : (f == 0.5) = true
  · -- The fraction is a half, so the exponent less one is the logarithm.
    obtain rfl := hpower.mp hless
    have near_k := (@value_ofInt (e + 53 - 1) (by omega)).near (A := 44)
      (by rw [abs_le]; constructor <;> exact_mod_cast (by omega))
    have hlast : Real.log ((2 ^ 52 : Nat) * 2 ^ (-53 : Int)) = -Real.log 2 := by
      rw [← Real.log_inv]
      norm_num
    rw [if_pos hless, hlast, neg_mul, mul_one_div_cancel (ne_of_gt log_two_pos)]
    refine near_k.trans (δ := 0) (le_of_eq ?_) (by with_unfolding_all decide)
    rw [Rat.cast_zero, abs_eq_zero]
    push_cast
    ring
  · have near_k := (@value_ofInt (e + 53) (by omega)).near (A := 45)
      (by rw [abs_le]; constructor <;> exact_mod_cast (by omega))
    rw [if_neg hless]
    have near_product : Near (natural f * binaryScale) _ 1.78 3.82e-13 :=
      near_log.mul near_binaryScale (by with_unfolding_all decide)
    exact near_product.add near_k (by with_unfolding_all decide)

/-- The decimal logarithm of a number from one on. -/
theorem near_decimal {x : Float} {q : ℝ} (hx : Value x.toModel.unpack q) (h1 : 1 ≤ q)
    (hq : q ≤ 2 ^ 44) : Near (decimal x) (Real.log q / Real.log 10) 15 1.27e-13 := by
  have hquotient :
      Real.log q / Real.log 10 = Real.log q / Real.log 2 * (Real.log 2 / Real.log 10) :=
    (div_mul_div_cancel₀ (ne_of_gt log_two_pos)).symm
  rw [hquotient]
  exact (near_binary hx h1 hq).mul near_decimalScale (by with_unfolding_all decide)

theorem le_log_of_pow_le {k : Nat} {y : ℝ} (h : (10 : ℝ) ^ k * (1 + 3e-13) ≤ y) :
    k * Real.log 10 + 2.99e-13 ≤ Real.log y := by
  have hstep : 2.99e-13 ≤ Real.log (1 + 3e-13) :=
    le_trans (by norm_num) (Real.one_sub_inv_le_log_of_pos (by norm_num))
  have hmono := Real.log_le_log (by positivity) h
  rw [Real.log_mul (by positivity) (by norm_num), Real.log_pow] at hmono
  linarith

theorem log_le_of_le_pow {k : Nat} {y : ℝ} (hy : 0 < y) (h : y ≤ (10 : ℝ) ^ k * (1 - 3e-13)) :
    Real.log y ≤ k * Real.log 10 - 3e-13 := by
  have hstep := Real.log_le_sub_one_of_pos (by norm_num : (0 : ℝ) < 1 - 3e-13)
  have hmono := Real.log_le_log hy h
  rw [Real.log_mul (by positivity) (by norm_num), Real.log_pow] at hmono
  linarith

/-- The integer part of the decimal logarithm of a number that is not at a power of ten. -/
theorem toNat_decimal {n k : Nat} (hn : n ≤ 2 ^ 44)
    (hlow : 10 ^ k * 10000000000003 ≤ n * 10 ^ 13)
    (hhigh : n * 10 ^ 13 ≤ 10 ^ (k + 1) * 9999999999997) :
    (decimal n.toUInt64.toFloat).toUInt64.toNat = k := by
  have hpow : 10 ^ k ≤ n := by omega
  have hpos : 0 < n := (Nat.pow_pos (by decide)).trans_le hpow
  have hk : k < 44 := (Nat.pow_lt_pow_iff_right (by decide)).mp
    ((hpow.trans hn).trans_lt (by decide : 2 ^ 44 < 10 ^ 44))
  have hlow : (10 : ℝ) ^ k * 10000000000003 ≤ n * 10 ^ 13 := by exact_mod_cast hlow
  have hhigh : (n : ℝ) * 10 ^ 13 ≤ 10 ^ (k + 1) * 9999999999997 := by exact_mod_cast hhigh
  have hlogLow := le_log_of_pow_le (show (10 : ℝ) ^ k * (1 + 3e-13) ≤ n by linarith)
  have hlogHigh := log_le_of_le_pow (Nat.cast_pos.mpr hpos)
    (show (n : ℝ) ≤ 10 ^ (k + 1) * (1 - 3e-13) by linarith)
  have hten := abs_le.mp abs_log_ten_sub_le
  have hlog10 : 0 < Real.log 10 := Real.log_pos (by norm_num)
  have hquotient : k + 1.28e-13 ≤ Real.log n / Real.log 10 ∧
      Real.log n / Real.log 10 ≤ k + 1 - 1.28e-13 := by
    rw [le_div_iff₀ hlog10, div_le_iff₀ hlog10]
    push_cast at hlogHigh
    constructor <;> linarith
  obtain ⟨-, q, hq, herr⟩ := near_decimal (value_toFloat (by omega : n < 2 ^ 53))
    (by exact_mod_cast hpos) (by exact_mod_cast hn)
  obtain ⟨hge, hle⟩ := abs_le.mp herr
  push_cast at hge hle
  have hcast : (0 : ℝ) ≤ k ∧ (k : ℝ) < 44 := ⟨Nat.cast_nonneg k, by exact_mod_cast hk⟩
  rw [toNat_toUInt64 hq (by linarith) (by linarith), Nat.floor_eq_iff (by linarith)]
  constructor <;> linarith

end LoopNest.Logarithm
