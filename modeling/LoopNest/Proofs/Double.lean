import Mathlib

/-!
# Double precision as numbers

A finite double stands for a mantissa times a power of two (`Value`), and its word has both
(`unpack_pack`, `fields_of_unpack`). An operation takes the exact result and rounds it to a grid
(`roundWithAccuracy_eq`) that is as fine as the result (`two_zpow_gridExponent_le`), so its relative error
is below two to the power of minus 52 (`Value.add`, `Value.sub`, `Value.mul`, `Value.div`). `Near` bounds
the errors of whole expressions.
-/

open Float.Model Float.Model.UnpackedFloat

namespace LoopNest.Double

/-- The number that an unpacked float stands for, unless it is infinite or no number. -/
inductive Value : UnpackedFloat → ℝ → Prop
  | zero (s : Sign) : Value (.zero s) 0
  | finite (s : Sign) (m : Nat) (e : Int) (h : 0 < m) :
      Value (.finite s m e h) ((s.apply (m : Int) : Int) * (2 : ℝ) ^ e)

/-! ## Packing -/

theorem toNat_unpackMantissa (b : BitVec 64) :
    (@unpackMantissa .binary64 b).toNat = b.toNat % 2 ^ 52 := by
  simp [unpackMantissa, BitVec.extractLsb]

theorem toNat_unpackExponent (b : BitVec 64) :
    (@unpackExponent .binary64 b).toNat = b.toNat / 2 ^ 52 % 2 ^ 11 := by
  simp [unpackExponent, BitVec.extractLsb, Nat.shiftRight_eq_div_pow]

theorem toNat_unpackSign (b : BitVec 64) :
    (@unpackSign .binary64 b).toNat = b.toNat / 2 ^ 63 % 2 := by
  simp [unpackSign, BitVec.extractLsb, Nat.shiftRight_eq_div_pow]

theorem finite_congr {s : Sign} {m m' : Nat} {e e' : Int} (hm : m = m') (he : e = e') (h : 0 < m)
    (h' : 0 < m') : UnpackedFloat.finite s m e h = .finite s m' e' h' := by
  subst hm he
  rfl

/-- The fields of a word that is a normal number. -/
theorem unpack_normal {b : BitVec 64} (h0 : b.toNat / 2 ^ 52 % 2 ^ 11 ≠ 0)
    (h1 : b.toNat / 2 ^ 52 % 2 ^ 11 ≠ 2047) :
    UnpackedFloat.unpack .binary64 b = .finite (Sign.ofBitVec (@unpackSign .binary64 b))
      (2 ^ 52 + b.toNat % 2 ^ 52) ((b.toNat / 2 ^ 52 % 2 ^ 11 : Nat) - 1075) (by omega) := by
  have hexp := toNat_unpackExponent b
  have hne0 : @unpackExponent .binary64 b ≠ 0#11 := fun heq => by
    rw [heq] at hexp
    exact h0 hexp.symm
  have hne1 : @unpackExponent .binary64 b ≠ -1#11 := fun heq => by
    rw [heq] at hexp
    exact h1 hexp.symm
  have hmant : (1#1 ++ @unpackMantissa .binary64 b).toNat = 2 ^ 52 + b.toNat % 2 ^ 52 := by
    rw [BitVec.toNat_append, ← Nat.shiftLeft_add_eq_or_of_lt (BitVec.isLt _), toNat_unpackMantissa]
    rfl
  rw [UnpackedFloat.unpack]
  simp only [if_neg hne0, if_neg hne1]
  exact finite_congr hmant (by rw [hexp]; rfl) _ _

/-- The fields of a word that is a number below all normal ones. -/
theorem unpack_subnormal {b : BitVec 64} (h0 : b.toNat / 2 ^ 52 % 2 ^ 11 = 0)
    (h1 : b.toNat % 2 ^ 52 ≠ 0) :
    UnpackedFloat.unpack .binary64 b = .finite (Sign.ofBitVec (@unpackSign .binary64 b))
      (b.toNat % 2 ^ 52) (-1074) (by omega) := by
  have heq0 : @unpackExponent .binary64 b = 0#11 :=
    BitVec.eq_of_toNat_eq ((toNat_unpackExponent b).trans h0)
  have hne : @unpackMantissa .binary64 b ≠ 0#52 := fun heq => by
    have hmant := toNat_unpackMantissa b
    rw [heq] at hmant
    exact h1 hmant.symm
  rw [UnpackedFloat.unpack]
  simp only [heq0, hne, ↓reduceIte, ↓reduceDIte]
  rw [if_neg (by decide)]
  exact finite_congr (toNat_unpackMantissa b) (by decide) _ _

theorem toNat_packComponents (s : Sign) (e : BitVec 11) (m : BitVec 52) :
    (packComponents .binary64 s e m).toNat =
      s.toBitVec.toNat * 2 ^ 63 + e.toNat * 2 ^ 52 + m.toNat := by
  rw [packComponents, BitVec.toNat_append, BitVec.toNat_append,
    ← Nat.shiftLeft_add_eq_or_of_lt e.isLt, ← Nat.shiftLeft_add_eq_or_of_lt m.isLt,
    Nat.shiftLeft_eq, Nat.shiftLeft_eq]
  omega

theorem fields_packComponents (s : Sign) (e : BitVec 11) (m : BitVec 52) :
    (packComponents .binary64 s e m).toNat / 2 ^ 52 % 2 ^ 11 = e.toNat ∧
      (packComponents .binary64 s e m).toNat % 2 ^ 52 = m.toNat := by
  have he := e.isLt
  have hm := m.isLt
  rw [toNat_packComponents]
  constructor <;> omega

/-- The mantissas and exponents of double precision. -/
structure Fits (m : Nat) (e : Int) : Prop where
  pos : 0 < m
  mantissa : m < 2 ^ 53
  low : -1074 ≤ e
  high : e ≤ 971
  canonical : 2 ^ 52 ≤ m ∨ e = -1074

theorem pack_of_fits {m : Nat} {e : Int} (h : Fits m e) (s : Sign) :
    UnpackedFloat.pack .binary64 (.finite s m e h.pos) =
      packComponents .binary64 s (BitVec.ofNat 11 (if 2 ^ 52 ≤ m then (e + 1075).toNat else 0))
        (BitVec.ofNat 52 m) := by
  have hlow := h.low
  have hhigh := h.high
  have hbias : Format.binary64.exponentBias = 1023 := rfl
  simp only [UnpackedFloat.pack, hbias]
  rw [if_neg (by omega)]
  split
  · rename_i hlog
    have hlog : m.log2 = 52 := Nat.succ.inj hlog
    rw [if_pos ((Nat.log2_eq_iff (Nat.ne_of_gt h.pos)).mp hlog).1]
    congr 2
    omega
  · rename_i hlog
    rw [if_neg fun hle => hlog (congrArg Nat.succ
      ((Nat.log2_eq_iff (Nat.ne_of_gt h.pos)).mpr ⟨hle, h.mantissa⟩))]

theorem unpack_pack {m : Nat} {e : Int} (h : Fits m e) (s : Sign) :
    (Float.Model.pack (.finite s m e h.pos)).unpack = .finite s m e h.pos := by
  obtain ⟨hpos, hmantissa, hlow, hhigh, hcanonical⟩ := id h
  rw [Float.Model.unpack, Float.Model.pack, UInt64.toBitVec_ofBitVec, pack_of_fits h]
  by_cases hnormal : 2 ^ 52 ≤ m
  · rw [if_pos hnormal]
    obtain ⟨hexp, hmant⟩ := fields_packComponents s (BitVec.ofNat 11 (e + 1075).toNat) (BitVec.ofNat 52 m)
    have hexp := hexp.trans (Nat.mod_eq_of_lt (by omega : (e + 1075).toNat < 2 ^ 11))
    have hmant := hmant.trans (BitVec.toNat_ofNat m 52)
    rw [unpack_normal (by rw [hexp]; omega) (by rw [hexp]; omega), unpackSign_packComponents,
      Sign.ofBitVec_toBitVec]
    exact finite_congr (by rw [hmant]; omega) (by rw [hexp]; omega) _ _
  · rw [if_neg hnormal]
    obtain ⟨hexp, hmant⟩ := fields_packComponents s (BitVec.ofNat 11 0) (BitVec.ofNat 52 m)
    have hmant := hmant.trans (Nat.mod_eq_of_lt (Nat.lt_of_not_le hnormal))
    rw [unpack_subnormal hexp (by rw [hmant]; exact hpos.ne'), unpackSign_packComponents,
      Sign.ofBitVec_toBitVec]
    exact finite_congr hmant (hcanonical.resolve_left hnormal).symm _ _

theorem unpack_pack_zero (s : Sign) : (Float.Model.pack (.zero s)).unpack = .zero s := by
  cases s <;> rfl

/-- The fields of the word of a finite number. -/
theorem fields_of_unpack {b : BitVec 64} {s : Sign} {m : Nat} {e : Int} {h : 0 < m}
    (hb : UnpackedFloat.unpack .binary64 b = .finite s m e h) :
    (b.toNat / 2 ^ 52 % 2 ^ 11 ≠ 2047 ∧ m = 2 ^ 52 + b.toNat % 2 ^ 52 ∧
      b.toNat / 2 ^ 52 % 2 ^ 11 ≠ 0 ∧ e = (b.toNat / 2 ^ 52 % 2 ^ 11 : Nat) - 1075) ∨
    (m = b.toNat % 2 ^ 52 ∧ e = -1074) := by
  by_cases h0 : b.toNat / 2 ^ 52 % 2 ^ 11 = 0
  · by_cases h1 : b.toNat % 2 ^ 52 = 0
    · have hexp : @unpackExponent .binary64 b = 0#11 :=
        BitVec.eq_of_toNat_eq ((toNat_unpackExponent b).trans h0)
      have hmant : @unpackMantissa .binary64 b = 0#52 :=
        BitVec.eq_of_toNat_eq ((toNat_unpackMantissa b).trans h1)
      simp [UnpackedFloat.unpack, hexp, hmant] at hb
    · rw [unpack_subnormal h0 h1] at hb
      cases hb
      exact .inr ⟨rfl, rfl⟩
  · by_cases h1 : b.toNat / 2 ^ 52 % 2 ^ 11 = 2047
    · have hexp : @unpackExponent .binary64 b = -1#11 :=
        BitVec.eq_of_toNat_eq ((toNat_unpackExponent b).trans h1)
      rw [UnpackedFloat.unpack, if_pos hexp] at hb
      split at hb <;> cases hb
    · rw [unpack_normal h0 h1] at hb
      cases hb
      exact .inl ⟨h1, rfl, h0, rfl⟩

/-- A finite double has a mantissa and an exponent of double precision. -/
theorem fits_of_unpack {x : Float.Model} {s : Sign} {m : Nat} {e : Int} {h : 0 < m}
    (hx : x.unpack = .finite s m e h) : Fits m e := by
  rcases fields_of_unpack hx with ⟨h2047, hm, h0, he⟩ | ⟨hm, he⟩
  · exact ⟨h, by omega, by omega, by omega, .inl (by omega)⟩
  · exact ⟨h, by omega, by omega, by omega, .inr he⟩

/-! ## Rounding -/

theorem mantissa_shiftRight (em : ExtendedMantissa) (k : Nat) :
    (em >>> k).mantissa = em.mantissa / 2 ^ k := by
  induction k with
  | zero => exact (Nat.div_one _).symm
  | succ k ih =>
    change (em >>> k).mantissa / 2 = _
    rw [ih, Nat.div_div_eq_div_mul, Nat.pow_succ]

theorem mantissa_ofMantissaAndAccuracy (m : Nat) (a : Accuracy) :
    (ExtendedMantissa.ofMantissaAndAccuracy m a).mantissa = m := by
  unfold ExtendedMantissa.ofMantissaAndAccuracy
  split <;> rfl

/-- A rounded mantissa is one of the two next to the exact one. -/
theorem roundedMantissa_eq (em : ExtendedMantissa) :
    em.roundedMantissa = em.mantissa ∨ em.roundedMantissa = em.mantissa + 1 := by
  obtain ⟨m, r, s⟩ := em
  cases r <;> cases s <;> simp [ExtendedMantissa.roundedMantissa, ExtendedMantissa.accuracy,
    Accuracy.roundToNearestEven]
  omega

/-- The exponent of the grid that a number is rounded to. -/
def gridExponent (m : Nat) (e : Int) : Int := max (m.log2 + e - 52) (-1074)

theorem targetExponent_eq (m : Nat) (e : Int) :
    Format.binary64.targetExponent (totalExponent m e) = gridExponent m e := by
  have hbits : (Format.binary64.mantissaBits : Int) = 53 := rfl
  have hmin : Format.binary64.minExponent = -1074 := rfl
  rw [Format.targetExponent, totalExponent, gridExponent, hbits, hmin]
  omega

theorem shiftToTargetExponent_eq (m : Nat) (e : Int) (a : Accuracy) :
    shiftToTargetExponent .binary64 m e a =
      (ExtendedMantissa.ofMantissaAndAccuracy m a >>> (gridExponent m e - e).toNat,
        e + (gridExponent m e - e).toNat) := by
  rw [shiftToTargetExponent, targetExponent_eq, shiftToExponent]

theorem le_gridExponent {m : Nat} {e : Int} (hcanonical : 2 ^ 52 ≤ m ∨ e ≤ -1074) :
    e ≤ gridExponent m e := by
  rw [gridExponent]
  rcases hcanonical with hm | he
  · have := (Nat.le_log2 (by omega)).mpr hm
    omega
  · omega

theorem gridExponent_le_self {m : Nat} {e : Int} (hm : m < 2 ^ 53) (he : -1074 ≤ e) :
    gridExponent m e ≤ e := by
  have hlog : m.log2 ≤ 52 := by
    rcases Nat.eq_zero_or_pos m with rfl | hpos
    · decide
    · exact Nat.le_of_lt_succ ((Nat.log2_lt (Nat.ne_of_gt hpos)).mpr hm)
  rw [gridExponent]
  omega

/-- A mantissa that is not too long is not shifted. -/
theorem shift_of_lt {r : Nat} {t : Int} (hr : r < 2 ^ 53) (ht : -1074 ≤ t) :
    shiftToTargetExponent .binary64 r t .exact = (ExtendedMantissa.ofMantissaAndAccuracy r .exact, t) := by
  have hgrid := gridExponent_le_self hr ht
  rw [shiftToTargetExponent_eq, show (gridExponent r t - t).toNat = 0 by omega]
  exact Prod.ext rfl (Int.add_zero t)

/-- A mantissa that was rounded up to a power of two is one bit too long. -/
theorem shift_of_carry {t : Int} (ht : -1074 ≤ t) :
    shiftToTargetExponent .binary64 (2 ^ 53) t .exact = (⟨2 ^ 52, false, false⟩, t + 1) := by
  have hlog : (2 ^ 53 : Nat).log2 = 53 := Nat.log2_two_pow
  have hgrid : (gridExponent (2 ^ 53) t - t).toNat = 1 := by
    rw [gridExponent, hlog]
    omega
  rw [shiftToTargetExponent_eq, hgrid]
  rfl

theorem Value.of_eq {x : UnpackedFloat} {q q' : ℝ} (h : Value x q) (hq : q = q') : Value x q' :=
  hq ▸ h

/-- The end of rounding keeps the number that a rounded mantissa stands for. -/
theorem value_of_rounded (s : Sign) {r : Nat} {t : Int} (hr : r ≤ 2 ^ 53)
    (hcanonical : 2 ^ 52 ≤ r ∨ t = -1074) (hlow : -1074 ≤ t) (hhigh : t ≤ 970)
    {em : ExtendedMantissa} {e : Int} (hshift : shiftToTargetExponent .binary64 r t .exact = (em, e)) :
    Value (Float.Model.pack (if h : em.mantissa = 0 then .zero s
      else .finite s em.mantissa e (Nat.pos_of_ne_zero h))).unpack
      ((s.apply (r : Int) : Int) * (2 : ℝ) ^ t) := by
  rcases Nat.lt_or_eq_of_le hr with hlt | rfl
  · cases (shift_of_lt hlt hlow).symm.trans hshift
    change Value (Float.Model.pack (if h : r = 0 then .zero s
      else .finite s r t (Nat.pos_of_ne_zero h))).unpack _
    by_cases hzero : r = 0
    · rw [dif_pos hzero, unpack_pack_zero]
      exact (Value.zero s).of_eq (by cases s <;> simp [hzero, Sign.apply])
    · have hpos := Nat.pos_of_ne_zero hzero
      rw [dif_neg hzero, unpack_pack ⟨hpos, hlt, hlow, by omega, hcanonical⟩]
      exact .finite s r t hpos
  · cases (shift_of_carry hlow).symm.trans hshift
    have hfits : Fits (2 ^ 52) (t + 1) := ⟨by decide, by decide, by omega, by omega, .inl (le_refl _)⟩
    rw [dif_neg (by decide), unpack_pack hfits]
    refine (Value.finite s _ _ hfits.pos).of_eq ?_
    rw [zpow_add₀ (by norm_num)]
    cases s <;> norm_num [Sign.apply] <;> ring

/-- A number is rounded to one of the two multiples of its grid next to it. -/
theorem roundWithAccuracy_eq (s : Sign) {m : Nat} {e : Int}
    (hcanonical : 2 ^ 52 ≤ m ∨ e ≤ -1074) (hhigh : gridExponent m e ≤ 970) (a : Accuracy) :
    ∃ r, (r = m / 2 ^ (gridExponent m e - e).toNat ∨
        r = m / 2 ^ (gridExponent m e - e).toNat + 1) ∧
      (a = .exact → gridExponent m e = e → r = m) ∧
      Value (Float.Model.pack (roundWithAccuracy .binary64 s m e a)).unpack
        ((s.apply (r : Int) : Int) * (2 : ℝ) ^ gridExponent m e) := by
  obtain ⟨k, hk⟩ : ∃ k : Nat, gridExponent m e = e + k :=
    ⟨(gridExponent m e - e).toNat, by have := le_gridExponent hcanonical; omega⟩
  have hgrid : gridExponent m e = max (m.log2 + e - 52) (-1074) := rfl
  have hfirst := shiftToTargetExponent_eq m e a
  rw [show (gridExponent m e - e).toNat = k by omega] at hfirst ⊢
  rw [← hk] at hfirst
  generalize gridExponent m e = t at *
  have hlt : m / 2 ^ k < 2 ^ 53 := by
    rw [Nat.div_lt_iff_lt_mul (Nat.two_pow_pos k), ← Nat.pow_add]
    exact Nat.lt_of_lt_of_le Nat.lt_log2_self (Nat.pow_le_pow_right (by decide) (by omega))
  have hge : 2 ^ 52 ≤ m / 2 ^ k ∨ t = -1074 := by
    refine or_iff_not_imp_right.mpr fun ht => ?_
    rw [Nat.le_div_iff_mul_le (Nat.two_pow_pos k), ← Nat.pow_add,
      show 52 + k = m.log2 by omega]
    exact Nat.log2_self_le fun hm => by
      subst hm
      simp at hgrid hcanonical
      omega
  have hrounded := roundedMantissa_eq (ExtendedMantissa.ofMantissaAndAccuracy m a >>> k)
  rw [mantissa_shiftRight, mantissa_ofMantissaAndAccuracy] at hrounded
  refine ⟨(ExtendedMantissa.ofMantissaAndAccuracy m a >>> k).roundedMantissa, hrounded, ?_, ?_⟩
  · rintro rfl ht
    obtain rfl : k = 0 := by omega
    rfl
  · rw [roundWithAccuracy, hfirst]
    dsimp only
    generalize (ExtendedMantissa.ofMantissaAndAccuracy m a >>> k).roundedMantissa = r at hrounded ⊢
    rcases hfinal : shiftToTargetExponent .binary64 r t .exact with ⟨em, e'⟩
    exact value_of_rounded s (by omega) (by omega) (hgrid ▸ le_max_right _ _) hhigh hfinal

/-- A grid is as fine as the numbers that are rounded to it. -/
theorem two_zpow_gridExponent_le {m : Nat} {e : Int} {v : ℝ} (hcanonical : 2 ^ 52 ≤ m ∨ e ≤ -1074)
    (hlow : m * (2 : ℝ) ^ e ≤ v) : (2 : ℝ) ^ gridExponent m e ≤ v / 2 ^ 52 + 1 / 2 ^ 200 := by
  have hv : 0 ≤ v := le_trans (by positivity) hlow
  have hleast : (2 : ℝ) ^ (-1074 : Int) ≤ v / 2 ^ 52 + 1 / 2 ^ 200 :=
    calc (2 : ℝ) ^ (-1074 : Int) ≤ 2 ^ (-200 : Int) := zpow_le_zpow_right₀ (by norm_num) (by norm_num)
      _ = 1 / 2 ^ 200 := by rw [zpow_neg, one_div]; rfl
      _ ≤ _ := le_add_of_nonneg_left (by positivity)
  rcases Nat.eq_zero_or_pos m with rfl | hm
  · rwa [show gridExponent 0 e = -1074 by simp [gridExponent] at *; omega]
  rcases le_total (m.log2 + e - 52) (-1074) with hle | hle
  · rwa [gridExponent, max_eq_right hle]
  · have hlog : ((2 : ℝ) ^ m.log2) ≤ m := by exact_mod_cast Nat.log2_self_le (Nat.ne_of_gt hm)
    rw [gridExponent, max_eq_left hle, zpow_sub₀ (by norm_num), zpow_add₀ (by norm_num),
      zpow_natCast, zpow_ofNat]
    calc (2 : ℝ) ^ m.log2 * 2 ^ e / 2 ^ 52 ≤ m * 2 ^ e / 2 ^ 52 := by gcongr
      _ ≤ v / 2 ^ 52 := by gcongr
      _ ≤ _ := le_add_of_nonneg_right (by positivity)

theorem gridExponent_le {m : Nat} {e : Int} (hcanonical : 2 ^ 52 ≤ m ∨ e ≤ -1074)
    (hlow : m * (2 : ℝ) ^ e ≤ 2 ^ 200) : gridExponent m e ≤ 970 := by
  rcases Nat.eq_zero_or_pos m with rfl | hm
  · simp [gridExponent] at *
    omega
  have hlog : ((2 : ℝ) ^ m.log2) ≤ m := by exact_mod_cast Nat.log2_self_le (Nat.ne_of_gt hm)
  have hle : (2 : ℝ) ^ (m.log2 + e : Int) ≤ 2 ^ (200 : Int) := by
    rw [zpow_add₀ (by norm_num), zpow_natCast]
    exact le_trans (by gcongr) hlow
  have := (zpow_le_zpow_iff_right₀ (by norm_num)).mp hle
  rw [gridExponent]
  omega

/-- One and minus one. -/
def signOf (s : Sign) : ℝ := (s.apply 1 : Int)

theorem signOf_neg (s : Sign) : signOf (-s) = -signOf s := by
  unfold signOf
  exact_mod_cast (by cases s <;> rfl : (-s).apply 1 = -s.apply 1)

theorem signOf_mul (s s' : Sign) : signOf (s * s') = signOf s * signOf s' := by
  unfold signOf
  exact_mod_cast (by cases s <;> cases s' <;> rfl : (s * s').apply 1 = s.apply 1 * s'.apply 1)

theorem signOf_div (s s' : Sign) : signOf (s / s') = signOf s / signOf s' := by
  have h : (s / s').apply 1 * s'.apply 1 = s.apply 1 := by cases s <;> cases s' <;> rfl
  have h0 : signOf s' ≠ 0 := by cases s' <;> simp [signOf, Sign.apply]
  rw [eq_div_iff h0]
  unfold signOf
  exact_mod_cast h

theorem cast_apply (s : Sign) (n : Int) : ((s.apply n : Int) : ℝ) = signOf s * n := by
  cases s <;> simp [signOf, Sign.apply]

/-- Rounding a number that lies between a multiple of a power of two and the next one. -/
theorem roundWithAccuracy_near (s : Sign) {m : Nat} {e : Int} {v : ℝ}
    (hcanonical : 2 ^ 52 ≤ m ∨ e ≤ -1074) (hlow : m * (2 : ℝ) ^ e ≤ v)
    (hhigh : v < (m + 1) * (2 : ℝ) ^ e) (hv : v ≤ 2 ^ 200) (a : Accuracy) :
    ∃ q, |q - v| ≤ v / 2 ^ 52 + 1 / 2 ^ 200 ∧
      Value (Float.Model.pack (roundWithAccuracy .binary64 s m e a)).unpack (signOf s * q) := by
  have h := le_gridExponent hcanonical
  obtain ⟨r, hr, -, hvalue⟩ := roundWithAccuracy_eq s hcanonical
    (gridExponent_le hcanonical (hlow.trans hv)) a
  refine ⟨r * 2 ^ gridExponent m e, le_trans ?_ (two_zpow_gridExponent_le hcanonical hlow),
    hvalue.of_eq (by rw [cast_apply, mul_assoc]; rfl)⟩
  obtain ⟨k, hk⟩ : ∃ k : Nat, gridExponent m e = e + k := ⟨(gridExponent m e - e).toNat, by omega⟩
  rw [show (gridExponent m e - e).toNat = k by omega] at hr
  rw [hk, zpow_add₀ (by norm_num), zpow_natCast]
  have hle : ((m / 2 ^ k : Nat) : ℝ) * 2 ^ k ≤ m := by exact_mod_cast Nat.div_mul_le_self m (2 ^ k)
  have hlt : (m : ℝ) + 1 ≤ ((m / 2 ^ k : Nat) + 1) * 2 ^ k := by
    exact_mod_cast Nat.succ_le_of_lt (Nat.lt_mul_of_div_lt (Nat.lt_succ_self _) (Nat.two_pow_pos k))
  have hrle : ((m / 2 ^ k : Nat) : ℝ) ≤ r ∧ (r : ℝ) ≤ (m / 2 ^ k : Nat) + 1 := by
    exact_mod_cast (by omega : m / 2 ^ k ≤ r ∧ r ≤ m / 2 ^ k + 1)
  have hpos : (0 : ℝ) < 2 ^ e := by positivity
  have hup : (r : ℝ) * 2 ^ k ≤ m + 2 ^ k := by
    nlinarith [mul_le_mul_of_nonneg_right hrle.2 (by positivity : (0 : ℝ) ≤ 2 ^ k)]
  have hdown : (m : ℝ) + 1 ≤ r * 2 ^ k + 2 ^ k := by
    nlinarith [mul_le_mul_of_nonneg_right hrle.1 (by positivity : (0 : ℝ) ≤ 2 ^ k)]
  rw [abs_le]
  constructor
  · linarith [mul_le_mul_of_nonneg_right hdown hpos.le]
  · linarith [mul_le_mul_of_nonneg_right hup hpos.le]

/-- Rounding begins with as many bits as there are. -/
theorem round_eq (s : Sign) {m : Nat} (e : Int) (hm : 0 < m) : ∃ n t,
    UnpackedFloat.round .binary64 s m e = roundWithAccuracy .binary64 s n t .exact ∧
      t = min e (gridExponent m e) ∧ gridExponent n t = gridExponent m e ∧
      n * (2 : ℝ) ^ t = m * 2 ^ e ∧ (2 ^ 52 ≤ n ∨ t ≤ -1074) := by
  obtain ⟨k, hk⟩ : ∃ k, (e - gridExponent m e).toNat = k := ⟨_, rfl⟩
  refine ⟨m <<< k, e - k, ?_, by omega, ?_, ?_, ?_⟩
  · rw [UnpackedFloat.round, targetExponent_eq, decreaseExponent, hk]
  all_goals
    have hlog : (m <<< k).log2 = m.log2 + k := by
      rw [Nat.shiftLeft_eq, Nat.log2_eq_iff (by positivity), Nat.pow_add, Nat.add_right_comm,
        Nat.pow_add]
      exact ⟨Nat.mul_le_mul_right _ (Nat.log2_self_le (Nat.ne_of_gt hm)),
        Nat.mul_lt_mul_of_pos_right Nat.lt_log2_self (Nat.two_pow_pos k)⟩
  · rw [gridExponent, gridExponent, hlog]
    push_cast
    ring_nf
  · rw [Nat.shiftLeft_eq, Nat.cast_mul, zpow_sub₀ (by norm_num), zpow_natCast]
    push_cast
    field_simp
  · by_cases hbits : 52 ≤ (m <<< k).log2
    · exact .inl (le_trans (Nat.pow_le_pow_right (by decide) hbits)
        (Nat.log2_self_le (Nat.ne_of_gt (by rw [Nat.shiftLeft_eq]; positivity))))
    · rw [gridExponent] at hk
      exact .inr (by omega)

theorem round_near (s : Sign) {m : Nat} {e : Int} (hm : 0 < m) (hv : m * (2 : ℝ) ^ e ≤ 2 ^ 200) :
    ∃ q, |q - m * (2 : ℝ) ^ e| ≤ m * (2 : ℝ) ^ e / 2 ^ 52 + 1 / 2 ^ 200 ∧
      Value (Float.Model.pack (UnpackedFloat.round .binary64 s m e)).unpack (signOf s * q) := by
  obtain ⟨n, t, hround, -, -, hexact, hcanonical⟩ := round_eq s e hm
  rw [hround]
  refine roundWithAccuracy_near s hcanonical hexact.le ?_ hv .exact
  rw [← hexact, add_one_mul]
  exact lt_add_of_pos_right _ (by positivity)

/-- A mantissa that is not too long stays as it is. -/
theorem round_exact (s : Sign) {m : Nat} {e : Int} (hm : 0 < m) (he : gridExponent m e ≤ e)
    (hhigh : e ≤ 970) :
    Value (Float.Model.pack (UnpackedFloat.round .binary64 s m e)).unpack
      (signOf s * (m * 2 ^ e)) := by
  obtain ⟨n, t, hround, ht, hgrid, hexact, hcanonical⟩ := round_eq s e hm
  obtain ⟨r, -, hr, hvalue⟩ := roundWithAccuracy_eq s hcanonical (by omega) .exact
  rw [hround]
  refine hvalue.of_eq ?_
  rw [hr rfl (by omega), cast_apply, mul_assoc, ← hexact, show gridExponent n t = t by omega]
  rfl

theorem normalize_near (n : Int) (e : Int) (z : Sign) (hv : |n * (2 : ℝ) ^ e| ≤ 2 ^ 200) :
    ∃ q, |q - n * (2 : ℝ) ^ e| ≤ |n * (2 : ℝ) ^ e| / 2 ^ 52 + 1 / 2 ^ 200 ∧
      Value (Float.Model.pack (UnpackedFloat.normalize .binary64 n e z)).unpack q := by
  have hpos : (0 : ℝ) < 2 ^ e := by positivity
  rw [UnpackedFloat.normalize]
  rcases lt_trichotomy n 0 with hn | rfl | hn
  · rw [Int.compare_eq_lt.mpr hn]
    have hcast : ((-n).toNat : ℝ) = -n := by exact_mod_cast Int.toNat_of_nonneg (by omega : 0 ≤ -n)
    have hneg : (n : ℝ) * 2 ^ e ≤ 0 := mul_nonpos_of_nonpos_of_nonneg (by exact_mod_cast hn.le) hpos.le
    rw [abs_of_nonpos hneg] at hv ⊢
    obtain ⟨q, hq, hvalue⟩ := round_near .negative (m := (-n).toNat) (e := e) (by omega)
      (by rw [hcast]; linarith)
    rw [hcast] at hq
    refine ⟨-q, ?_, hvalue.of_eq (by simp [signOf, Sign.apply])⟩
    rw [← abs_neg]
    convert hq using 2 <;> ring
  · exact ⟨0, by simp, by simpa [unpack_pack_zero] using Value.zero z⟩
  · rw [Int.compare_eq_gt.mpr hn]
    have hcast : (n.toNat : ℝ) = n := by exact_mod_cast Int.toNat_of_nonneg hn.le
    rw [abs_of_nonneg (mul_nonneg (by exact_mod_cast hn.le) hpos.le)] at hv ⊢
    obtain ⟨q, hq, hvalue⟩ := round_near .positive (m := n.toNat) (e := e) (by omega)
      (by rwa [hcast])
    exact ⟨q, by rwa [hcast] at hq, hvalue.of_eq (by simp [signOf, Sign.apply])⟩

/-! ## Operations -/

theorem unpack_pack_unpack {x : Float.Model} {q : ℝ} (h : Value x.unpack q) :
    (Float.Model.pack x.unpack).unpack = x.unpack := by
  generalize hx : x.unpack = u at h
  cases h with
  | zero s => exact unpack_pack_zero s
  | finite s m e hm => exact unpack_pack (fits_of_unpack hx) s

theorem decreaseExponent_eq (m : Nat) {e e' : Int} (h : e' ≤ e) :
    (decreaseExponent m e e').1 * (2 : ℝ) ^ e' = m * 2 ^ e := by
  obtain ⟨k, rfl⟩ : ∃ k : Nat, e = e' + k := ⟨(e - e').toNat, by omega⟩
  rw [decreaseExponent, show (e' + k - e').toNat = k by omega, Nat.shiftLeft_eq,
    zpow_add₀ (by norm_num), zpow_natCast]
  push_cast
  ring

theorem Value.exact {u : UnpackedFloat} {v : ℝ} (h : Value u v)
    (hu : (Float.Model.pack u).unpack = u) : ∃ q, |q - v| ≤ |v| / 2 ^ 52 + 1 / 2 ^ 200 ∧
      Value (Float.Model.pack u).unpack q :=
  ⟨v, by rw [sub_self, abs_zero]; positivity, hu.symm ▸ h⟩

variable {x y : Float} {a b : ℝ}

/-- A sum is rounded once. -/
theorem Value.add (hx : Value x.toModel.unpack a) (hy : Value y.toModel.unpack b)
    (hv : |a + b| ≤ 2 ^ 200) : ∃ q, |q - (a + b)| ≤ |a + b| / 2 ^ 52 + 1 / 2 ^ 200 ∧
      Value (x + y).toModel.unpack q := by
  change ∃ q, _ ∧ Value (Float.Model.pack
    (UnpackedFloat.add .binary64 x.toModel.unpack y.toModel.unpack)).unpack q
  have hx' := unpack_pack_unpack hx
  have hy' := unpack_pack_unpack hy
  generalize x.toModel.unpack = u at *
  generalize y.toModel.unpack = w at *
  cases hx with
  | zero s =>
    cases hy with
    | zero s' =>
      refine ⟨0, by simp, ?_⟩
      rw [UnpackedFloat.add]
      split <;> (rw [unpack_pack_zero]; exact .zero _)
    | finite s' m' e' hm' =>
      rw [zero_add]
      exact (Value.finite s' m' e' hm').exact hy'
  | finite s m e hm =>
    cases hy with
    | zero s' =>
      rw [add_zero]
      exact (Value.finite s m e hm).exact hx'
    | finite s' m' e' hm' =>
      have hsum : ((s.apply (decreaseExponent m e (min e e')).1 +
          s'.apply (decreaseExponent m' e' (min e e')).1 : Int) : ℝ) * 2 ^ min e e' =
          (s.apply (m : Int) : Int) * 2 ^ e + (s'.apply (m' : Int) : Int) * 2 ^ e' := by
        rw [Int.cast_add, cast_apply, cast_apply, cast_apply, cast_apply, add_mul, mul_assoc,
          mul_assoc, Int.cast_natCast, Int.cast_natCast, decreaseExponent_eq m (min_le_left e e'),
          decreaseExponent_eq m' (min_le_right e e')]
        push_cast
        ring
      rw [← hsum] at hv ⊢
      exact normalize_near _ _ _ hv

/-- A difference is rounded once. -/
theorem Value.sub (hx : Value x.toModel.unpack a) (hy : Value y.toModel.unpack b)
    (hv : |a - b| ≤ 2 ^ 200) : ∃ q, |q - (a - b)| ≤ |a - b| / 2 ^ 52 + 1 / 2 ^ 200 ∧
      Value (x - y).toModel.unpack q := by
  change ∃ q, _ ∧ Value (Float.Model.pack
    (UnpackedFloat.sub .binary64 x.toModel.unpack y.toModel.unpack)).unpack q
  have hx' := unpack_pack_unpack hx
  generalize x.toModel.unpack = u at *
  generalize hw : y.toModel.unpack = w at *
  cases hx with
  | zero s =>
    cases hy with
    | zero s' =>
      refine ⟨0, by simp, ?_⟩
      rw [UnpackedFloat.sub]
      split <;> (rw [unpack_pack_zero]; exact .zero _)
    | finite s' m' e' hm' =>
      rw [zero_sub]
      exact ((Value.finite (-s') m' e' hm').of_eq (by
        rw [cast_apply, cast_apply, signOf_neg, neg_mul, neg_mul])).exact
        (unpack_pack (fits_of_unpack hw) _)
  | finite s m e hm =>
    cases hy with
    | zero s' =>
      rw [sub_zero]
      exact (Value.finite s m e hm).exact hx'
    | finite s' m' e' hm' =>
      have hsum : ((s.apply (decreaseExponent m e (min e e')).1 -
          s'.apply (decreaseExponent m' e' (min e e')).1 : Int) : ℝ) * 2 ^ min e e' =
          (s.apply (m : Int) : Int) * 2 ^ e - (s'.apply (m' : Int) : Int) * 2 ^ e' := by
        rw [Int.cast_sub, cast_apply, cast_apply, cast_apply, cast_apply, sub_mul, mul_assoc,
          mul_assoc, Int.cast_natCast, Int.cast_natCast, decreaseExponent_eq m (min_le_left e e'),
          decreaseExponent_eq m' (min_le_right e e')]
        push_cast
        ring
      rw [← hsum] at hv ⊢
      exact normalize_near _ _ _ hv

theorem abs_signOf (s : Sign) : |signOf s| = 1 := by
  cases s <;> simp [signOf, Sign.apply]

/-- A product is rounded once. -/
theorem Value.mul (hx : Value x.toModel.unpack a) (hy : Value y.toModel.unpack b)
    (hv : |a * b| ≤ 2 ^ 200) : ∃ q, |q - a * b| ≤ |a * b| / 2 ^ 52 + 1 / 2 ^ 200 ∧
      Value (x * y).toModel.unpack q := by
  change ∃ q, _ ∧ Value (Float.Model.pack
    (UnpackedFloat.mul .binary64 x.toModel.unpack y.toModel.unpack)).unpack q
  generalize hu : x.toModel.unpack = u at *
  generalize hw : y.toModel.unpack = w at *
  cases hx with
  | zero s =>
    rw [zero_mul]
    refine ⟨0, by simp, ?_⟩
    cases hy <;> exact (unpack_pack_zero _).symm ▸ .zero _
  | finite s m e hm =>
    cases hy with
    | zero s' =>
      rw [mul_zero]
      exact ⟨0, by simp, (unpack_pack_zero _).symm ▸ .zero _⟩
    | finite s' m' e' hm' =>
      have hf := fits_of_unpack hu
      have hf' := fits_of_unpack hw
      have hproduct : (s.apply (m : Int) : Int) * (2 : ℝ) ^ e * ((s'.apply (m' : Int) : Int) * 2 ^ e') =
          signOf (s * s') * ((m * m' : Nat) * 2 ^ (e + e')) := by
        rw [cast_apply, cast_apply, signOf_mul, zpow_add₀ (by norm_num)]
        push_cast
        ring
      have habs : |(m * m' : Nat) * (2 : ℝ) ^ (e + e')| = (m * m' : Nat) * (2 : ℝ) ^ (e + e') :=
        abs_of_nonneg (by positivity)
      rw [hproduct, abs_mul, abs_signOf, one_mul, habs] at hv
      have hcanonical : 2 ^ 52 ≤ m * m' ∨ e + e' ≤ -1074 := by
        rcases hf.canonical with h | h
        · exact .inl (h.trans (Nat.le_mul_of_pos_right m hm'))
        · rcases hf'.canonical with h' | h'
          · exact .inl (h'.trans (Nat.le_mul_of_pos_left m' hm))
          · exact .inr (by omega)
      obtain ⟨q, hq, hvalue⟩ := roundWithAccuracy_near (s * s') hcanonical le_rfl
        (mul_lt_mul_of_pos_right (lt_add_one _) (by positivity)) hv .exact
      refine ⟨_, ?_, hvalue⟩
      rw [hproduct, ← mul_sub, abs_mul, abs_mul, abs_signOf, one_mul, one_mul, habs]
      exact hq

/-- The quotient of two mantissas is found to the last bit that rounding needs. -/
theorem divCore_near {m m' : Nat} (hm : 0 < m) (e : Int) (hm' : 0 < m') (e' : Int) :
    ∃ n t acc, divCore .binary64 m e m' e' = (n, t, acc) ∧ (2 ^ 52 ≤ n ∨ t ≤ -1074) ∧
      n * (2 : ℝ) ^ t ≤ m * 2 ^ e / (m' * 2 ^ e') ∧
      m * (2 : ℝ) ^ e / (m' * 2 ^ e') < (n + 1) * 2 ^ t := by
  have htarget : ∀ d : Int, Format.binary64.targetExponent d = max (d - 53) (-1074) := fun d => rfl
  rw [divCore, htarget, totalExponent, totalExponent]
  obtain ⟨t, ht⟩ : ∃ t, min (e - e') (max (m.log2 + 1 + e - (m'.log2 + 1 + e') - 53) (-1074)) = t :=
    ⟨_, rfl⟩
  obtain ⟨k, hk⟩ : ∃ k, (e - e' - t).toNat = k := ⟨_, rfl⟩
  rw [ht, hk]
  refine ⟨_, _, _, rfl, ?canonical, ?low, ?high⟩
  case canonical =>
    refine or_iff_not_imp_right.mpr fun hlow => ?_
    rw [Nat.le_div_iff_mul_le hm', Nat.shiftLeft_eq]
    calc 2 ^ 52 * m' ≤ 2 ^ 52 * 2 ^ (m'.log2 + 1) := Nat.mul_le_mul_left _ Nat.lt_log2_self.le
      _ = 2 ^ (53 + m'.log2) := by rw [← Nat.pow_add]; congr 1; omega
      _ ≤ 2 ^ (m.log2 + k) := Nat.pow_le_pow_right (by decide) (by omega)
      _ = 2 ^ m.log2 * 2 ^ k := Nat.pow_add 2 _ _
      _ ≤ m * 2 ^ k := Nat.mul_le_mul_right _ (Nat.log2_self_le (Nat.ne_of_gt hm))
  all_goals
    rw [show e = t + k + e' by omega, zpow_add₀ (by norm_num), zpow_add₀ (by norm_num), zpow_natCast,
      Nat.shiftLeft_eq]
    have hpos : (0 : ℝ) < 2 ^ t := by positivity
    have hpos' : (0 : ℝ) < 2 ^ e' := by positivity
    have hcast : (0 : ℝ) < m' := by exact_mod_cast hm'
  case low =>
    rw [le_div_iff₀ (by positivity)]
    have hle : ((m * 2 ^ k / m' : Nat) : ℝ) * m' ≤ m * 2 ^ k := by
      exact_mod_cast Nat.div_mul_le_self (m * 2 ^ k) m'
    nlinarith [mul_le_mul_of_nonneg_right hle (mul_pos hpos hpos').le]
  case high =>
    rw [div_lt_iff₀ (by positivity)]
    have hlt : (m : ℝ) * 2 ^ k < ((m * 2 ^ k / m' : Nat) + 1) * m' := by
      exact_mod_cast Nat.lt_mul_of_div_lt (Nat.lt_succ_self (m * 2 ^ k / m')) hm'
    nlinarith [mul_lt_mul_of_pos_right hlt (mul_pos hpos hpos')]

/-- A quotient is rounded once. -/
theorem Value.div (hx : Value x.toModel.unpack a) (hy : Value y.toModel.unpack b) (hb : b ≠ 0)
    (hv : |a / b| ≤ 2 ^ 200) : ∃ q, |q - a / b| ≤ |a / b| / 2 ^ 52 + 1 / 2 ^ 200 ∧
      Value (x / y).toModel.unpack q := by
  change ∃ q, _ ∧ Value (Float.Model.pack
    (UnpackedFloat.div .binary64 x.toModel.unpack y.toModel.unpack)).unpack q
  generalize hu : x.toModel.unpack = u at *
  generalize hw : y.toModel.unpack = w at *
  cases hx with
  | zero s =>
    rw [zero_div]
    refine ⟨0, by simp, ?_⟩
    cases hy with
    | zero s' => exact absurd rfl hb
    | finite s' m' e' hm' => exact (unpack_pack_zero _).symm ▸ .zero _
  | finite s m e hm =>
    cases hy with
    | zero s' => exact absurd rfl hb
    | finite s' m' e' hm' =>
      have hquotient : (s.apply (m : Int) : Int) * (2 : ℝ) ^ e / ((s'.apply (m' : Int) : Int) * 2 ^ e') =
          signOf (s / s') * (m * 2 ^ e / (m' * 2 ^ e')) := by
        rw [cast_apply, cast_apply, signOf_div]
        push_cast
        ring
      have habs : |m * (2 : ℝ) ^ e / (m' * 2 ^ e')| = m * 2 ^ e / (m' * 2 ^ e') :=
        abs_of_nonneg (by positivity)
      rw [hquotient, abs_mul, abs_signOf, one_mul, habs] at hv
      obtain ⟨n, t, acc, hcore, hcanonical, hlow, hhigh⟩ := divCore_near hm e hm' e'
      obtain ⟨q, hq, hvalue⟩ := roundWithAccuracy_near (s / s') hcanonical hlow hhigh hv acc
      refine ⟨signOf (s / s') * q, ?_, ?_⟩
      · rw [hquotient, ← mul_sub, abs_mul, abs_mul, abs_signOf, one_mul, one_mul, habs]
        exact hq
      · rw [UnpackedFloat.div, hcore]
        exact hvalue

/-! ## Bits -/

/-- The number that the bits of a positive normal number stand for. -/
theorem unpack_of_bits {b : BitVec 64} (hlow : 2 ^ 52 ≤ b.toNat) (hhigh : b.toNat < 2047 * 2 ^ 52) :
    UnpackedFloat.unpack .binary64 b =
      .finite .positive (2 ^ 52 + b.toNat % 2 ^ 52) ((b.toNat / 2 ^ 52 : Nat) - 1075) (by omega) := by
  have hsign : @unpackSign .binary64 b = 0#1 :=
    BitVec.eq_of_toNat_eq ((toNat_unpackSign b).trans
      (show b.toNat / 2 ^ 63 % 2 = 0 by omega))
  rw [unpack_normal (by omega) (by omega), hsign]
  exact finite_congr rfl (by omega) _ _

theorem unpack_of_toBits {x : Float} {b : Nat} (hx : x.toBits.toNat = b) (hlow : 2 ^ 52 ≤ b)
    (hhigh : b < 2047 * 2 ^ 52) : ∃ h, x.toModel.unpack =
      .finite .positive (2 ^ 52 + b % 2 ^ 52) ((b / 2 ^ 52 : Nat) - 1075) h := by
  subst hx
  exact ⟨by omega, @unpack_of_bits x.toBits.toBitVec hlow hhigh⟩

theorem unpack_ofBits {b : UInt64} {n : Nat} (hb : b.toNat = n) (hlow : 2 ^ 52 ≤ n)
    (hhigh : n < 2047 * 2 ^ 52) : ∃ h, (Float.ofBits b).toModel.unpack =
      .finite .positive (2 ^ 52 + n % 2 ^ 52) ((n / 2 ^ 52 : Nat) - 1075) h := by
  subst hb
  refine ⟨by omega, ?_⟩
  have hnat : b.toBitVec.toNat = b.toNat := rfl
  change (Float.Model.pack (UnpackedFloat.unpack .binary64 b.toBitVec)).unpack = _
  rw [unpack_of_bits hlow hhigh]
  exact unpack_pack ⟨by omega, by omega, by omega, by omega, .inl (by omega)⟩ .positive

/-- The bits of a positive normal number. -/
theorem bits_of_unpack {x : Float} {m : Nat} {e : Int} {h : 0 < m}
    (hx : x.toModel.unpack = .finite .positive m e h) (hm : 2 ^ 52 ≤ m) :
    m = 2 ^ 52 + x.toBits.toNat % 2 ^ 52 ∧ e = (x.toBits.toNat / 2 ^ 52 % 2 ^ 11 : Nat) - 1075 := by
  rcases fields_of_unpack hx with ⟨-, hm', -, he⟩ | ⟨hm', -⟩
  · exact ⟨hm', he⟩
  · omega

/-! ## Comparison and truncation -/

theorem lt_iff {x y : Float} {m m' : Nat} {e : Int} {h : 0 < m} {h' : 0 < m'}
    (hx : x.toModel.unpack = .finite .positive m e h)
    (hy : y.toModel.unpack = .finite .positive m' e h') : x < y ↔ m < m' := by
  change (decide (x.toModel < y.toModel) : Bool) = true ↔ _
  rw [decide_eq_true_iff]
  change (x.toModel.unpack.lt y.toModel.unpack : Bool) = true ↔ _
  rw [hx, hy]
  simp [UnpackedFloat.lt, UnpackedFloat.compare, Nat.compare_eq_lt]

theorem beq_iff {x y : Float} {m m' : Nat} {e : Int} {h : 0 < m} {h' : 0 < m'}
    (hx : x.toModel.unpack = .finite .positive m e h)
    (hy : y.toModel.unpack = .finite .positive m' e h') : (x == y) = true ↔ m = m' := by
  change (x.toModel.unpack.beq y.toModel.unpack : Bool) = true ↔ _
  rw [hx, hy]
  simp [UnpackedFloat.beq, UnpackedFloat.compare]

/-- Conversion to a word takes the integer part. -/
theorem toNat_toUInt64 {x : Float} {q : ℝ} (hx : Value x.toModel.unpack q) (h0 : 0 ≤ q)
    (hq : q < 2 ^ 63) : x.toUInt64.toNat = ⌊q⌋₊ := by
  change (x.toModel.unpack.toUInt64).toNat = _
  generalize x.toModel.unpack = u at *
  cases hx with
  | zero s => simp [UnpackedFloat.toUInt64, UnpackedFloat.toInt, UInt64.ofNatClamp]
  | finite s m e hm =>
    cases s with
    | negative =>
      have hneg : ((Sign.negative.apply (m : Int) : Int) : ℝ) * 2 ^ e < 0 := by
        rw [Sign.apply]
        push_cast
        exact mul_neg_of_neg_of_pos (by simpa using hm) (by positivity)
      linarith
    | positive =>
      have hint : roundToInt .positive m e = ⌊(m : ℝ) * 2 ^ e⌋₊ := by
        simp only [roundToInt, decreaseExponent, shiftToExponent, mantissa_shiftRight,
          mantissa_ofMantissaAndAccuracy, Sign.apply, Nat.shiftLeft_eq]
        rcases le_total 0 e with he | he
        · obtain ⟨n, rfl⟩ := Int.eq_ofNat_of_zero_le he
          have hfloor : ⌊(m : ℝ) * 2 ^ (n : Int)⌋₊ = m * 2 ^ n := by
            rw [zpow_natCast]
            exact_mod_cast Nat.floor_natCast (m * 2 ^ n)
          rw [hfloor]
          simp
        · obtain ⟨n, hn⟩ := Int.eq_ofNat_of_zero_le (by omega : 0 ≤ -e)
          obtain rfl : e = -n := by omega
          have hfloor : ⌊(m : ℝ) * 2 ^ (-n : Int)⌋₊ = m / 2 ^ n := by
            rw [zpow_neg, zpow_natCast, ← div_eq_mul_inv]
            exact_mod_cast Nat.floor_div_eq_div m (2 ^ n)
          rw [hfloor]
          simp
      have hlt : ⌊(m : ℝ) * 2 ^ e⌋₊ < 2 ^ 63 := by
        rw [Nat.floor_lt (by positivity)]
        exact_mod_cast hq
      have hsize : ⌊(m : ℝ) * 2 ^ e⌋₊ < UInt64.size := hlt.trans (by decide)
      simp only [UnpackedFloat.toUInt64, UnpackedFloat.toInt, hint, UInt64.ofNatClamp,
        Int.toNat_natCast, dif_pos hsize]
      rfl

/-! ## Whole numbers -/

theorem Value.neg {x : Float} {q : ℝ} (hx : Value x.toModel.unpack q) :
    Value (-x).toModel.unpack (-q) := by
  change Value (Float.Model.pack x.toModel.unpack.neg).unpack (-q)
  generalize hu : x.toModel.unpack = u at hx
  cases hx with
  | zero s => exact (unpack_pack_zero (-s)).symm ▸ (Value.zero (-s)).of_eq neg_zero.symm
  | finite s m e hm =>
    have hvalue : Value (.finite (-s) m e hm) (-((s.apply (m : Int) : Int) * (2 : ℝ) ^ e)) :=
      (Value.finite (-s) m e hm).of_eq (by rw [cast_apply, cast_apply, signOf_neg, neg_mul, neg_mul])
    exact (unpack_pack (fits_of_unpack hu) (-s)).symm ▸ hvalue

theorem value_of_positive {u : UnpackedFloat} {m : Nat} {e : Int} {hm : 0 < m}
    (hu : u = .finite .positive m e hm) : Value u (m * 2 ^ e) :=
  hu ▸ (Value.finite .positive m e hm).of_eq (by rw [cast_apply]; simp [signOf, Sign.apply])

/-- A word that is not too long is converted as it is. -/
theorem value_toFloat {n : Nat} (h : n < 2 ^ 53) : Value n.toUInt64.toFloat.toModel.unpack n := by
  have hnat : n.toUInt64.toNat = n := by
    rw [Nat.toUInt64, UInt64.toNat_ofNat']
    omega
  change Value (Float.Model.pack
    (UnpackedFloat.normalize .binary64 (n.toUInt64.toNat : Int) 0 .positive)).unpack n
  rw [hnat, UnpackedFloat.normalize]
  rcases Nat.eq_zero_or_pos n with rfl | hn
  · exact (unpack_pack_zero .positive).symm ▸ (Value.zero .positive).of_eq Nat.cast_zero.symm
  · rw [Int.compare_eq_gt.mpr (by omega)]
    exact (round_exact .positive hn (gridExponent_le_self h (by decide)) (by decide)).of_eq
      (by simp [signOf, Sign.apply])

/-- A number from one on is positive and has all bits of its mantissa. -/
theorem unpack_of_one_le {x : Float} {q : ℝ} (h : Value x.toModel.unpack q) (hq : 1 ≤ q) :
    ∃ m e, ∃ hm : 0 < m, x.toModel.unpack = .finite .positive m e hm ∧ 2 ^ 52 ≤ m ∧ m < 2 ^ 53 ∧
      q = m * 2 ^ e := by
  generalize hu : x.toModel.unpack = u at h
  cases h with
  | zero s => norm_num at hq
  | finite s m e hm =>
    have hpos : (0 : ℝ) < m * 2 ^ e := by positivity
    cases s with
    | negative =>
      simp only [Sign.apply] at hq
      push_cast at hq
      linarith
    | positive =>
      have hfits := fits_of_unpack hu
      refine ⟨m, e, hm, rfl, ?_, hfits.mantissa, rfl⟩
      rcases hfits.canonical with h | rfl
      · exact h
      · -- Numbers with this exponent are far below one.
        have hlt : (m : ℝ) < 2 ^ (53 : Int) := by exact_mod_cast hfits.mantissa
        have hle : (2 : ℝ) ^ (53 : Int) * 2 ^ (-1074 : Int) ≤ 1 := by
          rw [← zpow_add₀ (by norm_num)]
          exact zpow_le_one_of_nonpos₀ (by norm_num) (by norm_num)
        have : (m : ℝ) * 2 ^ (-1074 : Int) < 2 ^ (53 : Int) * 2 ^ (-1074 : Int) :=
          mul_lt_mul_of_pos_right hlt (by positivity)
        have hq' : 1 ≤ (m : ℝ) * 2 ^ (-1074 : Int) := hq
        linarith

/-! ## Errors -/

/-- A double stands for a number that is as near as `ε` to `α`, whose size is at most `A`. -/
structure Near (x : Float) (α : ℝ) (A ε : ℚ) : Prop where
  size : |α| ≤ A
  error : ∃ q, Value x.toModel.unpack q ∧ |q - α| ≤ ε

/-- Rounding a result of size at most `A`, with an error of at most `ε`, leaves an error of at most `ζ`;
the result's size is at most `B`. -/
def Rounds (A ε B ζ : ℚ) : Prop :=
  A ≤ B ∧ B + ε ≤ 2 ^ 200 ∧ ε + ((B + ε) / 2 ^ 52 + 1 / 2 ^ 200) ≤ ζ

instance {A ε B ζ : ℚ} : Decidable (Rounds A ε B ζ) := inferInstanceAs (Decidable (_ ∧ _))

section

variable {x y : Float} {α β : ℝ} {ε δ ζ A B C : ℚ}

theorem Value.near {q : ℝ} (h : Value x.toModel.unpack q) (hA : |q| ≤ A) : Near x q A 0 :=
  ⟨hA, q, h, by simp⟩

theorem Near.trans (h : Near x α A ε) (hβ : |α - β| ≤ δ) (hB : A + δ ≤ B ∧ ε + δ ≤ ζ) :
    Near x β B ζ := by
  obtain ⟨hsize, q, hq, herr⟩ := h
  have hcast : (A : ℝ) + δ ≤ B ∧ (ε : ℝ) + δ ≤ ζ := by exact_mod_cast hB
  refine ⟨?_, q, hq, ?_⟩
  · linarith only [hcast.1, hsize, hβ, abs_sub_abs_le_abs_sub β α, abs_sub_comm α β]
  · linarith only [hcast.2, herr, hβ, abs_sub_le q α β]

/-- The result of an operation that rounds once is near to what its exact result is near to. -/
theorem Rounds.near {v : ℝ} (h : Rounds A ε B ζ) (hα : |α| ≤ A) (hv : |v - α| ≤ ε)
    (hx : |v| ≤ 2 ^ 200 → ∃ q, |q - v| ≤ |v| / 2 ^ 52 + 1 / 2 ^ 200 ∧ Value x.toModel.unpack q) :
    Near x α B ζ := by
  have hA : (A : ℝ) ≤ B := Rat.cast_le.mpr h.1
  have hbig : ((B + ε : ℚ) : ℝ) ≤ (2 ^ 200 : ℚ) := Rat.cast_le.mpr h.2.1
  have hζ : ((ε + ((B + ε) / 2 ^ 52 + 1 / 2 ^ 200) : ℚ) : ℝ) ≤ ζ := Rat.cast_le.mpr h.2.2
  push_cast at hbig hζ
  have habs : |v| ≤ B + ε := by linarith only [abs_sub_abs_le_abs_sub v α, hv, hα, hA]
  obtain ⟨q, hq, hvalue⟩ := hx (habs.trans hbig)
  have hround : |v| / 2 ^ 52 ≤ (B + ε) / 2 ^ 52 := by gcongr
  refine ⟨hα.trans hA, q, hvalue, ?_⟩
  calc |q - α| ≤ |q - v| + |v - α| := abs_sub_le q v α
    _ ≤ ζ := by linarith only [hq, hround, hv, hζ]

theorem Near.add (hx : Near x α A ε) (hy : Near y β B δ) (h : Rounds (A + B) (ε + δ) C ζ) :
    Near (x + y) (α + β) C ζ := by
  obtain ⟨hA, a, ha, hae⟩ := hx
  obtain ⟨hB, b, hb, hbe⟩ := hy
  refine h.near ?_ ?_ (ha.add hb)
  · rw [Rat.cast_add]
    exact (abs_add_le _ _).trans (add_le_add hA hB)
  · rw [add_sub_add_comm, Rat.cast_add]
    exact (abs_add_le _ _).trans (add_le_add hae hbe)

theorem Near.sub (hx : Near x α A ε) (hy : Near y β B δ) (h : Rounds (A + B) (ε + δ) C ζ) :
    Near (x - y) (α - β) C ζ := by
  obtain ⟨hA, a, ha, hae⟩ := hx
  obtain ⟨hB, b, hb, hbe⟩ := hy
  refine h.near ?_ ?_ (ha.sub hb)
  · rw [Rat.cast_add]
    exact (abs_sub _ _).trans (add_le_add hA hB)
  · rw [sub_sub_sub_comm, Rat.cast_add]
    exact (abs_sub _ _).trans (add_le_add hae hbe)

theorem Near.mul (hx : Near x α A ε) (hy : Near y β B δ)
    (h : Rounds (A * B) (A * δ + B * ε + ε * δ) C ζ) : Near (x * y) (α * β) C ζ := by
  obtain ⟨hA, a, ha, hae⟩ := hx
  obtain ⟨hB, b, hb, hbe⟩ := hy
  have hA0 := (abs_nonneg α).trans hA
  have hB0 := (abs_nonneg β).trans hB
  have hε0 := (abs_nonneg _).trans hae
  refine h.near ?_ ?_ (ha.mul hb)
  · rw [abs_mul, Rat.cast_mul]
    exact mul_le_mul hA hB (abs_nonneg β) hA0
  · rw [show a * b - α * β = α * (b - β) + β * (a - α) + (a - α) * (b - β) by ring]
    push_cast
    refine (abs_add_le _ _).trans (add_le_add ((abs_add_le _ _).trans (add_le_add ?_ ?_)) ?_) <;>
      rw [abs_mul] <;> gcongr

/-- Division by a number that is not below one. -/
theorem Near.div (hx : Near x α A ε) (hy : Near y β B δ) (hβ : 1 + δ ≤ β)
    (h : Rounds A (ε + A * δ) C ζ) : Near (x / y) (α / β) C ζ := by
  obtain ⟨hA, a, ha, hae⟩ := hx
  obtain ⟨-, b, hb, hbe⟩ := hy
  have hδ := (abs_nonneg _).trans hbe
  have hb1 : 1 ≤ b := by linarith only [(abs_le.mp hbe).1, hβ]
  have hβ1 : 1 ≤ β := by linarith only [hδ, hβ]
  have hβpos : 0 < β := zero_lt_one.trans_le hβ1
  have hbpos : 0 < b := zero_lt_one.trans_le hb1
  have hquotient : |α / β| ≤ A := by
    rw [abs_div, abs_of_pos hβpos]
    exact (div_le_self (abs_nonneg α) hβ1).trans hA
  refine h.near hquotient ?_ (ha.div hb hbpos.ne')
  rw [show a / b - α / β = ((a - α) - α / β * (b - β)) / b by field_simp; ring, abs_div,
    abs_of_pos hbpos]
  push_cast
  refine (div_le_self (abs_nonneg _) hb1).trans ((abs_sub _ _).trans (add_le_add hae ?_))
  rw [abs_mul]
  exact mul_le_mul hquotient hbe (abs_nonneg _) ((abs_nonneg _).trans hquotient)

end

end LoopNest.Double
