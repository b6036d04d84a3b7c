import Mathlib

/-! # Windows of given proportions

A window of `w` by `h` is scaled by one ratio and each length rounded down. The
largest ratio that fits a frame fills it in at least one direction, and rounding
keeps the proportions to within one unit of either length.
-/

namespace N6Samples.Proportion

variable {K : Type*} [Field K] [LinearOrder K] [FloorRing K]

/-- A length scaled by `r`, rounded down. -/
def scaled (r : K) (n : ℤ) : ℤ := ⌊(n : K) * r⌋

/-- The largest ratio by which a window of `w` by `h` fits a frame of `fw` by `fh`. -/
def fitRatio (K : Type*) [Field K] [LinearOrder K] (w h fw fh : ℤ) : K :=
  min ((fw : K) / w) ((fh : K) / h)

theorem scaled_bounds (r : K) (n : ℤ) :
    (scaled r n : K) ≤ n * r ∧ (n : K) * r < scaled r n + 1 :=
  ⟨Int.floor_le _, Int.lt_floor_add_one _⟩

variable [IsStrictOrderedRing K]

theorem scaled_div {n : ℤ} (hn : (n : K) ≠ 0) (m : ℤ) : scaled ((m : K) / n) n = m := by
  rw [scaled, mul_div_cancel₀ _ hn]
  exact Int.floor_intCast m

theorem scaled_mono {n : ℤ} (hn : 0 ≤ n) {r s : K} (h : r ≤ s) : scaled r n ≤ scaled s n := by
  have hcast : (0 : K) ≤ n := by exact_mod_cast hn
  exact Int.floor_mono (mul_le_mul_of_nonneg_left h hcast)

theorem le_scaled {n : ℤ} (hn : 0 ≤ n) {r : K} (hr : 1 ≤ r) : n ≤ scaled r n := by
  have hone : scaled (1 : K) n = n := by
    rw [scaled, mul_one, Int.floor_intCast]
  calc n = scaled (1 : K) n := hone.symm
    _ ≤ scaled r n := scaled_mono hn hr

/-- What rounding takes from one length, measured in the other. -/
theorem scaled_cross_lt (r : K) {w h : ℤ} (hw : 0 < w) (hh : 0 < h) :
    scaled r w * h - scaled r h * w < w := by
  have hwK : (0 : K) < w := by exact_mod_cast hw
  have hhK : (0 : K) < h := by exact_mod_cast hh
  have hwidth := mul_le_mul_of_nonneg_right (scaled_bounds r w).1 hhK.le
  have hheight := mul_lt_mul_of_pos_right (scaled_bounds r h).2 hwK
  have hcross : (scaled r w : K) * h - scaled r h * w < w := by
    linear_combination hwidth + hheight
  exact_mod_cast hcross

/-- Scaling keeps the proportions, whatever the ratio. -/
theorem scaled_aspect (r : K) {w h : ℤ} (hw : 0 < w) (hh : 0 < h) :
    |scaled r w * h - scaled r h * w| < max w h := by
  have hwide := scaled_cross_lt r hw hh
  have htall := scaled_cross_lt r hh hw
  rw [abs_lt]
  constructor
  · have hmax := le_max_right w h
    omega
  · exact hwide.trans_le (le_max_left w h)

/-! ## The largest window -/

variable {w h fw fh : ℤ}

theorem one_le_fitRatio (hw : 0 < w) (hh : 0 < h) (hfw : w ≤ fw) (hfh : h ≤ fh) :
    1 ≤ fitRatio K w h fw fh := by
  have hwK : (0 : K) < w := by exact_mod_cast hw
  have hhK : (0 : K) < h := by exact_mod_cast hh
  apply le_min
  · rw [le_div_iff₀ hwK, one_mul]
    exact_mod_cast hfw
  · rw [le_div_iff₀ hhK, one_mul]
    exact_mod_cast hfh

theorem fit_le_width (hw : 0 < w) : scaled (fitRatio K w h fw fh) w ≤ fw := by
  have hwK : (w : K) ≠ 0 := by exact_mod_cast hw.ne'
  calc scaled (fitRatio K w h fw fh) w
      ≤ scaled ((fw : K) / w) w := scaled_mono hw.le (min_le_left _ _)
    _ = fw := scaled_div hwK fw

theorem fit_le_height (hh : 0 < h) : scaled (fitRatio K w h fw fh) h ≤ fh := by
  have hhK : (h : K) ≠ 0 := by exact_mod_cast hh.ne'
  calc scaled (fitRatio K w h fw fh) h
      ≤ scaled ((fh : K) / h) h := scaled_mono hh.le (min_le_right _ _)
    _ = fh := scaled_div hhK fh

/-- The window fills the frame in one direction. -/
theorem fit_full (hw : 0 < w) (hh : 0 < h) :
    scaled (fitRatio K w h fw fh) w = fw ∨ scaled (fitRatio K w h fw fh) h = fh := by
  have hwK : (w : K) ≠ 0 := by exact_mod_cast hw.ne'
  have hhK : (h : K) ≠ 0 := by exact_mod_cast hh.ne'
  cases min_choice ((fw : K) / w) ((fh : K) / h) with
  | inl hleft =>
      left
      rw [fitRatio, hleft]
      exact scaled_div hwK fw
  | inr hright =>
      right
      rw [fitRatio, hright]
      exact scaled_div hhK fh

end N6Samples.Proportion
