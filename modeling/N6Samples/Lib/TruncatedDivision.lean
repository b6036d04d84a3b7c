import Mathlib

/-! # Quotient and remainder that truncate toward zero

The pair of truncated quotient and remainder is a signed positional notation:
both parts carry the sign of the number, the remainder stays below the base,
and the pairs compare lexicographically as the numbers do.
-/

namespace N6Samples.TruncatedDivision

/-- The two parts of `x` in base `b`. -/
def split (b x : ℤ) : ℤ × ℤ := (x.tdiv b, x.tmod b)

@[simp] theorem split_fst (b x : ℤ) : (split b x).1 = x.tdiv b := rfl

@[simp] theorem split_snd (b x : ℤ) : (split b x).2 = x.tmod b := rfl

theorem split_value (b x : ℤ) : (split b x).1 * b + (split b x).2 = x :=
  Int.tdiv_mul_add_tmod x b

theorem abs_split_snd_lt {b : ℤ} (hb : 0 < b) (x : ℤ) : |(split b x).2| < b := by
  have habs : |x.tmod b| = |x| % b := by
    rw [Int.abs_eq_natAbs, Int.abs_eq_natAbs, Int.natAbs_tmod]
    push_cast
    rw [abs_of_pos hb]
  rw [split_snd, habs]
  exact Int.emod_lt_of_pos _ hb

theorem split_nonneg {b x : ℤ} (hb : 0 ≤ b) (hx : 0 ≤ x) :
    0 ≤ (split b x).1 ∧ 0 ≤ (split b x).2 :=
  ⟨Int.tdiv_nonneg hx hb, Int.tmod_nonneg b hx⟩

theorem split_nonpos {b x : ℤ} (hb : 0 ≤ b) (hx : x ≤ 0) :
    (split b x).1 ≤ 0 ∧ (split b x).2 ≤ 0 := by
  have h := split_nonneg hb (neg_nonneg.mpr hx)
  simp only [split_fst, split_snd, Int.neg_tdiv, Int.neg_tmod] at h ⊢
  omega

theorem tdiv_mono {b : ℤ} (hb : 0 < b) : Monotone fun x : ℤ => x.tdiv b := by
  intro x y hxy
  have hx := split_value b x
  have hy := split_value b y
  have hxb := abs_lt.mp (abs_split_snd_lt hb x)
  have hyb := abs_lt.mp (abs_split_snd_lt hb y)
  simp only [split_fst, split_snd] at hx hy hxb hyb ⊢
  by_contra hlt
  have hstep : (y.tdiv b + 1) * b ≤ x.tdiv b * b :=
    mul_le_mul_of_nonneg_right (by omega) hb.le
  rcases le_total 0 x with hx0 | hx0
  · -- Non-negative arguments: the remainders are non-negative as well.
    have hxr := (split_nonneg hb.le hx0).2
    have hyr := (split_nonneg hb.le (hx0.trans hxy)).2
    simp only [split_snd] at hxr hyr
    linarith
  · have hxr := (split_nonpos hb.le hx0).2
    rcases le_total 0 y with hy0 | hy0
    · have hxq := (split_nonpos hb.le hx0).1
      have hyq := (split_nonneg hb.le hy0).1
      simp only [split_fst] at hxq hyq
      omega
    · have hyr := (split_nonpos hb.le hy0).2
      simp only [split_snd] at hxr hyr
      linarith

/-- A range around zero for the quotient, from the open range of the numbers
that truncate into it. -/
theorem tdiv_mem_of_mem (lo hi : ℤ) {b x : ℤ} (hb : 0 < b) (hlo : lo ≤ 0) (hhi : 0 ≤ hi)
    (h1 : (lo - 1) * b < x) (h2 : x < (hi + 1) * b) : lo ≤ x.tdiv b ∧ x.tdiv b ≤ hi := by
  have hx := split_value b x
  simp only [split_fst, split_snd] at hx
  rcases le_total 0 x with hx0 | hx0
  · rcases split_nonneg hb.le hx0 with ⟨hq, hr⟩
    simp only [split_fst, split_snd] at hq hr
    refine ⟨hlo.trans hq, ?_⟩
    by_contra hlt
    have hstep : (hi + 1) * b ≤ x.tdiv b * b := mul_le_mul_of_nonneg_right (by omega) hb.le
    linarith
  · rcases split_nonpos hb.le hx0 with ⟨hq, hr⟩
    simp only [split_fst, split_snd] at hq hr
    refine ⟨?_, hq.trans hhi⟩
    by_contra hlt
    have hstep : x.tdiv b * b ≤ (lo - 1) * b := mul_le_mul_of_nonneg_right (by omega) hb.le
    linarith

/-- The lexicographic order on the pairs is the order of the numbers. -/
theorem split_lex_strictMono {b : ℤ} (hb : 0 < b) :
    StrictMono fun x : ℤ => toLex (split b x) := by
  intro x y hxy
  rw [Prod.Lex.toLex_lt_toLex]
  rcases lt_or_eq_of_le (tdiv_mono hb hxy.le) with hlt | heq
  · exact Or.inl hlt
  · have hx := split_value b x
    have hy := split_value b y
    refine Or.inr ⟨heq, ?_⟩
    simp only [split_fst] at hx hy heq
    rw [heq] at hx
    linarith

private theorem tdiv_lt_of_nonneg {b x y : ℤ} (hb : 0 < b) (hx : 0 ≤ x) (h : x + b ≤ y) :
    x.tdiv b < y.tdiv b := by
  rw [Int.tdiv_eq_ediv_of_nonneg hx, Int.tdiv_eq_ediv_of_nonneg (by omega)]
  have hstep : (x + 1 * b) / b ≤ y / b := Int.ediv_le_ediv hb (by omega)
  rw [Int.add_mul_ediv_right _ _ hb.ne'] at hstep
  omega

private theorem tdiv_lt_of_nonpos {b x y : ℤ} (hb : 0 < b) (hy : y ≤ 0) (h : x + b ≤ y) :
    x.tdiv b < y.tdiv b := by
  have hneg := tdiv_lt_of_nonneg hb (neg_nonneg.mpr hy) (y := -x) (by omega)
  rw [Int.neg_tdiv, Int.neg_tdiv] at hneg
  omega

/-- Scaling by at least the base keeps the truncated quotients apart, also
across zero, where truncation maps a whole interval to zero. -/
theorem mul_tdiv_strictMono {b k : ℤ} (hb : 0 < b) (hk : b ≤ k) :
    StrictMono fun m : ℤ => (m * k).tdiv b := by
  have hnonneg : ∀ m n : ℤ, 0 ≤ m → m < n → (m * k).tdiv b < (n * k).tdiv b := by
    intro m n hm hmn
    exact tdiv_lt_of_nonneg hb (mul_nonneg hm (by omega)) (by nlinarith)
  have hnonpos : ∀ m n : ℤ, n ≤ 0 → m < n → (m * k).tdiv b < (n * k).tdiv b := by
    intro m n hn hmn
    exact tdiv_lt_of_nonpos hb (mul_nonpos_of_nonpos_of_nonneg hn (by omega)) (by nlinarith)
  intro m n hmn
  by_cases hm : 0 ≤ m
  · exact hnonneg m n hm hmn
  by_cases hn : n ≤ 0
  · exact hnonpos m n hn hmn
  · exact (hnonpos m 0 le_rfl (by omega)).trans (hnonneg 0 n le_rfl (by omega))

end N6Samples.TruncatedDivision
