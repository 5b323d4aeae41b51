import LoopNest.Proofs.Index.Space

/-!
# Positions along the leading axis

Positions are words, and subscripts need not be in range. If all subscripts that differ in their first
coordinate alone have positions below the element count, these positions are evenly spaced and lie
one in each slice of the memory (`leading_positions`). So they are different from those of any other
such subscripts at other first coordinates (`rowMajor_ne_of_leading`).
-/

namespace LoopNest

theorem word64_add_word64 (x y : Int) : word64 (x + word64 y) = word64 (x + y) := Int.add_bmod_bmod

theorem word64_word64_add (x y : Int) : word64 (word64 x + y) = word64 (x + y) := Int.bmod_add_bmod

theorem word64_bounds (x : Int) : -0x8000000000000000 ≤ word64 x ∧ word64 x < 0x8000000000000000 := by
  have h₁ := Int.le_bmod (x := x) (m := 0x10000000000000000) (by decide)
  have h₂ := Int.bmod_lt (x := x) (m := 0x10000000000000000) (by decide)
  unfold word64
  omega

/-- A sum of a position and a word is exact when it is not negative. -/
theorem word64_add_of_nonneg {p e : Int} (lo : 0 ≤ p) (hi : p < 0x8000000000000000)
    (he : e < 0x8000000000000000) (he' : -0x8000000000000000 ≤ e) (h : 0 ≤ word64 (p + e)) :
    word64 (p + e) = p + e := by
  by_cases hfits : p + e < 0x8000000000000000
  · exact word64_of_fits (by omega) hfits
  · have hwrap : word64 (p + e) = p + e - 0x10000000000000000 := by
      rw [← word64_of_fits (n := p + e - 0x10000000000000000) (by omega) (by omega)]
      exact (Int.sub_bmod_right (p + e) 0x10000000000000000).symm
    omega

/-- Positions along a leading axis with at least two values: they are evenly spaced, and as many of
their distances as the axis is long make up the element count. -/
theorem leading_positions {d n r z : Int} (hd : 2 ≤ d) (hz : z = word64 (d * n))
    (hsmall : z < 0x4000000000000000)
    (h : ∀ g, 0 ≤ g → g < d → 0 ≤ word64 (g * n + r) ∧ word64 (g * n + r) < z) :
    0 ≤ word64 r ∧ word64 r < word64 n ∧
      ∀ g, 0 ≤ g → g < d → word64 (g * n + r) = g * word64 n + word64 r := by
  have hn := word64_bounds n
  have hstart : ∀ g : Nat, (g : Int) < d →
      word64 ((g : Int) * n + r) = g * word64 n + word64 r := by
    intro g
    induction g with
    | zero => simp
    | succ g ih =>
      intro hg
      have hg' := ih (by omega)
      obtain ⟨lo, hi⟩ := h g (by omega) (by omega)
      have hnext := h (g + 1 : Nat) (by omega) hg
      have hstep : word64 (((g + 1 : Nat) : Int) * n + r) =
          word64 (word64 ((g : Int) * n + r) + word64 n) := by
        rw [word64_add_word64, word64_word64_add, Int.natCast_add, Int.add_mul]
        congr 1
        omega
      rw [hstep] at hnext ⊢
      rw [word64_add_of_nonneg lo (by omega) hn.2 hn.1 hnext.1, hg', Int.natCast_add, Int.add_mul]
      omega
  have heven : ∀ g, 0 ≤ g → g < d → word64 (g * n + r) = g * word64 n + word64 r := by
    intro g lo hi
    have := hstart g.toNat (by omega)
    rwa [Int.toNat_of_nonneg lo] at this
  have hfirst := h 0 (Int.le_refl 0) (by omega)
  have hsecond := h 1 (by omega) (by omega)
  have hlast := h (d - 1) (by omega) (by omega)
  rw [heven _ (by omega) (by omega)] at hfirst hsecond hlast
  rw [Int.sub_mul] at hlast
  -- the element count is exact: it is one distance from the last position
  have hcount : z = d * word64 n := by
    rw [hz, ← show word64 (d * word64 n) = word64 (d * n) from Int.mul_bmod_bmod]
    exact word64_of_fits (by omega) (by omega)
  refine ⟨by omega, by omega, heven⟩

/-- Subscripts with different first coordinates have different positions, provided that the positions
of all first coordinates are below the element count. -/
theorem rowMajor_ne_of_leading {d f g : Int} {ds is js : List Int} (hi : is.length = ds.length)
    (hj : js.length = ds.length) (hsmall : Shape.size (d :: ds) < 0x4000000000000000)
    (his : ∀ h, 0 ≤ h → h < d → ∃ o, rowMajor (d :: ds) (h :: is) = some o ∧ 0 ≤ o ∧
      o < Shape.size (d :: ds))
    (hjs : ∀ h, 0 ≤ h → h < d → ∃ o, rowMajor (d :: ds) (h :: js) = some o ∧ 0 ≤ o ∧
      o < Shape.size (d :: ds))
    (hf : 0 ≤ f ∧ f < d) (hg : 0 ≤ g ∧ g < d) (hne : f ≠ g) :
    rowMajor (d :: ds) (f :: is) ≠ rowMajor (d :: ds) (g :: js) := by
  have hpos : ∀ {is : List Int}, is.length = ds.length → ∀ h, rowMajor (d :: ds) (h :: is) =
      some (word64 (h * Shape.count ds + flatten ds is)) := fun hlen h => by
    rw [rowMajor_eq_word (by rw [List.length_cons, List.length_cons, hlen]), flatten_cons]
  have hsize : Shape.size (d :: ds) = word64 (d * Shape.count ds) := by
    rw [Shape.size_eq_word, Shape.count_cons]
  have hspaced : ∀ {is : List Int}, is.length = ds.length →
      (∀ h, 0 ≤ h → h < d → ∃ o, rowMajor (d :: ds) (h :: is) = some o ∧ 0 ≤ o ∧
        o < Shape.size (d :: ds)) →
      0 ≤ word64 (flatten ds is) ∧ word64 (flatten ds is) < word64 (Shape.count ds) ∧
        ∀ h, 0 ≤ h → h < d → word64 (h * Shape.count ds + flatten ds is) =
          h * word64 (Shape.count ds) + word64 (flatten ds is) := by
    intro is hlen hall
    refine leading_positions (by omega) hsize hsmall fun h lo hi => ?_
    obtain ⟨o, ho, hb⟩ := hall h lo hi
    rw [hpos hlen] at ho
    cases ho
    exact hb
  obtain ⟨lo₁, hi₁, heq₁⟩ := hspaced hi his
  obtain ⟨lo₂, hi₂, heq₂⟩ := hspaced hj hjs
  rw [hpos hi, hpos hj, heq₁ f hf.1 hf.2, heq₂ g hg.1 hg.2]
  intro heq
  have heq := Option.some.inj heq
  -- the first coordinate is the number of the slice
  have hdiv : ∀ (h : Int) {r : Int}, 0 ≤ r → r < word64 (Shape.count ds) →
      (h * word64 (Shape.count ds) + r) / word64 (Shape.count ds) = h := by
    intro h r lo hi
    rw [Int.add_comm, Int.add_mul_ediv_right _ _ (by omega), Int.ediv_eq_zero_of_lt lo hi, Int.zero_add]
  exact hne (by rw [← hdiv f lo₁ hi₁, heq, hdiv g lo₂ hi₂])

end LoopNest
